import Amanuensis.Http.Lengths

/-!
# Requests

Two directions. `PlainRequest` is a request without folding and without chunks, and every one is
parsed up to its last byte into what it renders (`readsRequest`). Conversely, the head of an
accepted request is one that RFC 7230 allows, and is stored as it is, when four things are so that
the parser does not look at: the target is not empty, no name holds a `>`, and the versions fit in
an `int` (`isRequestHead_iff`).
-/

namespace Amanuensis

namespace HttpMessageParser

open Scanner

/-! ### Counting down -/

/-- A state of a body of known length is entered with a count, and left at zero. -/
theorem remaining_ne_zero_of_consume {c c' : Cursor} {input : UInt8}
    (h : consume c input = (.incomplete, c')) (hstate : c'.parser.state = .fixedLengthEntity) :
    c'.parser.remaining ≠ 0 := by
  rcases c with ⟨⟨state, remaining, buffer, valueBuffer⟩, message, phase⟩
  cases state
  all_goals dsimp only [consume, expect, Cursor.endHeaders] at h
  all_goals repeat' split at h
  all_goals simp only [Prod.mk.injEq, reduceCtorEq, false_and, true_and] at h
  all_goals subst h
  all_goals first
    | exact ‹¬ _ = (0 : UInt64)›
    | exact ParserState.noConfusion hstate

/-- The bytes of a body of known length are counted down to the last one. -/
theorem remaining_ne_zero_of_scan {mode : Mode} {p : HttpMessageParser} {bytes : QByteArray}
    (hnone : (scanner.scan (Cursor.start mode p).forget bytes).verdict = none) :
    (scanner.scan (Cursor.start mode p).forget bytes).state.parser.state = .fixedLengthEntity →
      (scanner.scan (Cursor.start mode p).forget bytes).state.parser.remaining ≠ 0 := by
  refine scanner.scan_state_induction_of_none
    (P := fun c ↦ c.parser.state = .fixedLengthEntity → c.parser.remaining ≠ 0)
    (fun c input c' _ hstep ↦ remaining_ne_zero_of_consume (consume_of_scanner_step_none hstep))
    ?_ hnone
  cases mode <;> simp [Cursor.start, resetForRequest, resetForResponse]

/-- Each of these bytes takes one off the count, which does not wrap around. -/
theorem remaining_parse_concat {mode : Mode} {p : HttpMessageParser} {bytes : QByteArray}
    (hnone : (scanner.scan (Cursor.start mode p).forget bytes).verdict = none)
    (hstate : (parse (Cursor.start mode p).forget bytes).2.1.parser.state = .fixedLengthEntity)
    (input : UInt8) :
    (parse (Cursor.start mode p).forget (bytes ++ [input])).2.1.parser.remaining.toNat + 1 =
      (parse (Cursor.start mode p).forget bytes).2.1.parser.remaining.toNat := by
  have hcount := remaining_ne_zero_of_scan hnone
  rw [parse_eq_scan rfl] at hstate ⊢
  rw [parse_eq_scan rfl]
  dsimp only at hstate ⊢
  rw [scanner.scan_append_of_none hnone, scanner.scan_singleton, parser_scanner_step]
  obtain ⟨n, hn, htoNat, hremaining⟩ := exists_ofNat_succ (hcount hstate)
  have hstep : (consume (scanner.scan (Cursor.start mode p).forget bytes).state
      input).2.parser.remaining =
        (scanner.scan (Cursor.start mode p).forget bytes).state.parser.remaining - 1 := by
    rw [consume, hstate]
    dsimp only
    split <;> rfl
  rw [hstep, htoNat, hremaining, ofNat_succ_sub_one,
    UInt64.toNat_ofNat_of_lt' (show n < 2 ^ 64 by omega)]

/-! ### Completeness -/

/-- A request without folding and without chunks, with at most one length. -/
structure PlainRequest where
  line : RequestLine
  fields : List PlainField
  body : QByteArray
  line_wellFormed : line.WellFormed
  major_lt : natValue line.major < 2 ^ 31
  minor_lt : natValue line.minor < 2 ^ 31
  not_chunked : ∀ value ∈ codingValues (fields.map PlainField.entry), listsChunked value = false
  /-- There is no length and no body, or one length, which is that of the body. -/
  length : lengthValues (fields.map PlainField.entry) = [] ∧ body = [] ∨
    ∃ digits, lengthValues (fields.map PlainField.entry) = [QString.fromLatin1 digits] ∧
      digits ≠ [] ∧ (∀ d ∈ digits, isDigit d = true) ∧ natValue digits = body.length
  length_lt : body.length < 2 ^ 63

namespace PlainRequest

variable (r : PlainRequest)

/-- The fields, as the parser stores them. -/
def entries : List (QString × QString) := r.fields.map PlainField.entry

/-- The head of the request. -/
def head : Head where
  start := .request r.line
  lines := r.fields.map PlainField.line

/-- The wire form of the request. -/
def render : QByteArray := r.head.render ++ r.body

/-- The request as a wire message. -/
def wireMessage : WireMessage where
  head := r.head
  body := if r.body = [] then .none else .fixed r.body

theorem render_wireMessage : r.wireMessage.render = r.render := by
  rw [WireMessage.render, wireMessage, render]
  split_ifs with h
  · rw [h]
    rfl
  · rfl

theorem content_wireMessage : r.wireMessage.body.content = r.body := by
  rw [wireMessage]
  split_ifs with h
  · rw [h]
    rfl
  · rfl

/-- The framing asks for the body. -/
theorem framing_head :
    framing r.head.headers =
      if r.body = [] then .none else .fixed (UInt64.ofNat r.body.length) := by
  have hany : ¬ (codingValues (r.fields.map PlainField.entry)).any listsChunked = true := by
    simpa using r.not_chunked
  have hlt : r.body.length < 2 ^ 64 := r.length_lt.trans (by decide)
  rw [head, headers_lines, framing_insertAll, if_neg hany]
  rcases r.length with ⟨hnone, hbody⟩ | ⟨digits, hone, hne, hdigits, hvalue⟩
  · rw [hnone, if_pos hbody]
    rfl
  · have hread : (QString.fromLatin1 digits).toULongLong =
        some (UInt64.ofNat r.body.length) := by
      rw [QString.toULongLong_eq_some_iff, UInt64.toNat_ofNat_of_lt' hlt]
      exact QString.denotes_fromLatin1 hne hdigits hvalue
    have hzero : UInt64.ofNat r.body.length = 0 ↔ r.body = [] := by
      rw [← UInt64.toNat_inj, UInt64.toNat_ofNat_of_lt' hlt, ← List.length_eq_zero_iff]
      rfl
    rw [hone, List.getLast?_singleton, lengthFraming, hread]
    exact if_congr hzero rfl rfl

theorem wellFormed_wireMessage : r.wireMessage.WellFormed .request where
  head := ⟨⟨rfl, r.line_wellFormed⟩, linesWellFormed_lines r.fields {}⟩
  body := by
    have hlt : r.body.length < 2 ^ 64 := r.length_lt.trans (by decide)
    show Body.WellFormed (framing r.head.headers) (if r.body = [] then .none else .fixed r.body)
    rw [r.framing_head]
    split_ifs
    · trivial
    · exact (UInt64.toNat_ofNat_of_lt' hlt).symm

/-- **The request is read as it is rendered**, whatever follows it. -/
structure Read (p : HttpMessageParser) (rest : QByteArray) (c : Cursor) : Prop where
  accepted : parse (Cursor.start .request p).forget (r.render ++ rest) = (.valid, c, rest)
  method : c.message.method = QString.fromLatin1 r.line.method
  uri : c.message.uri = QString.fromLatin1 r.line.uri
  majorVersion : c.message.majorVersion = natValue r.line.major
  minorVersion : c.message.minorVersion = natValue r.line.minor
  /-- The stored headers are the fields, under their canonical names, -/
  values : c.message.headers.values.Perm
    (r.entries.map fun entry ↦ (Headers.canonicalize entry.1, entry.2))
  /-- and the names are listed where they occur first. -/
  names : c.message.headers.names = Headers.firstNames r.entries
  body : c.message.body = r.body
  /-- The count of the body is never taken below zero. -/
  counted : ∀ bytes input, bytes ++ [input] <+: r.render →
    (parse (Cursor.start .request p).forget bytes).2.1.parser.state = .fixedLengthEntity →
      (parse (Cursor.start .request p).forget (bytes ++ [input])).2.1.parser.remaining.toNat + 1 =
        (parse (Cursor.start .request p).forget bytes).2.1.parser.remaining.toNat

/-- **Request parsing is complete** on messages without folding and without chunks. -/
theorem exists_read (p : HttpMessageParser) (rest : QByteArray) : ∃ c, r.Read p rest c := by
  have hout : r.wireMessage.outcome = .valid := by
    rw [WireMessage.outcome, wireMessage]
    split_ifs <;> rfl
  have hparse (rest : QByteArray) := parse_render r.wellFormed_wireMessage hout p rest
  rw [render_wireMessage] at hparse
  have hheaders : r.wireMessage.message.headers = Headers.insertAll {} r.entries :=
    headers_lines _ r.fields
  refine ⟨_, hparse rest, rfl, rfl, ?_, ?_, ?_, ?_, r.content_wireMessage, ?_⟩
  · exact (intValue_eq_natValue_iff r.line_wellFormed.major).2 r.major_lt
  · exact (intValue_eq_natValue_iff r.line_wellFormed.minor).2 r.minor_lt
  · show r.wireMessage.message.headers.values.Perm _
    rw [hheaders, Headers.values_insertAll, List.append_nil]
    exact List.reverse_perm _
  · show r.wireMessage.message.headers.names = _
    rw [hheaders, Headers.names_insertAll_eq_firstNames]
  · intro bytes input hprefix hstate
    -- the verdict comes with the last byte of the request
    have hend : (scanner.scan (Cursor.start .request p).forget r.render).rest = [] := by
      have hall := hparse []
      rw [List.append_nil, parse_eq_scan rfl] at hall
      exact (Prod.mk.inj (Prod.mk.inj hall).2).2
    refine remaining_parse_concat (scanner.verdict_none_of_prefix hend
      ((List.prefix_append _ _).trans hprefix) ?_) hstate input
    rintro rfl
    exact absurd hprefix.length_le (by simp)

end PlainRequest

/-- A field of two texts. -/
def textField (name value : String)
    (hplain : (asciiBytes name ≠ [] ∧ ∀ b ∈ asciiBytes name, isTokenChar b = true) ∧
      ∀ b ∈ asciiBytes value, (!isCtl b) = true) : PlainField where
  name := asciiBytes name
  value := asciiBytes value
  name_ne := hplain.1.1
  name_token := hplain.1.2
  value_plain := hplain.2

/-- A `POST` request with a body of five bytes. -/
def helloPost : PlainRequest where
  line := simplePostLine
  fields := [textField "Host" "a" (by decide), textField "Content-Length" "5" (by decide)]
  body := asciiBytes "hello"
  line_wellFormed := wellFormed_simplePostLine.2
  major_lt := by decide
  minor_lt := by decide
  not_chunked := by decide
  length := .inr ⟨asciiBytes "5", by decide, by decide, by decide, by decide⟩
  length_lt := by decide

/-- It is read as it is rendered, with another request right behind it. -/
theorem helloPost_read : ∃ c, helloPost.Read {} (asciiBytes "GET / HTTP/1.1\r\n\r\n") c :=
  helloPost.exists_read {} (asciiBytes "GET / HTTP/1.1\r\n\r\n")

/-! ### Soundness -/

/-- A character of a token (RFC 7230, section 3.2.6). -/
def isTchar (b : UInt8) : Bool :=
  ("!#$%&'*+-.^_`|~".toList.map ascii).contains b || isDigit b ||
    (ascii 'A' ≤ b ∧ b ≤ ascii 'Z') || (ascii 'a' ≤ b ∧ b ≤ ascii 'z')

/-- **The parser admits one more character** than a token may hold. -/
theorem isTokenChar_iff {b : UInt8} : isTokenChar b = true ↔ isTchar b = true ∨ b = ascii '>' := by
  have hall : ∀ n < 256, isTokenChar (UInt8.ofNat n) = true ↔
      isTchar (UInt8.ofNat n) = true ∨ UInt8.ofNat n = ascii '>' := by decide +kernel
  have h := hall b.toNat b.toNat_lt
  rwa [UInt8.ofNat_toNat] at h

theorem isTchar_gt : isTchar (ascii '>') = false := by decide

theorem isTchar_of_isTokenChar {t : QByteArray} (ht : ∀ b ∈ t, isTokenChar b = true) :
    (∀ b ∈ t, isTchar b = true) ↔ ascii '>' ∉ t := by
  constructor
  · intro hall hmem
    exact absurd (hall _ hmem) (by simp [isTchar_gt])
  · intro hnot b hb
    exact (isTokenChar_iff.1 (ht b hb)).resolve_right fun heq ↦ hnot (heq ▸ hb)

/-- The parts of a request head: a request line, and the names and values of its fields. -/
structure RequestParts where
  line : RequestLine
  fields : List (QByteArray × QByteArray)

namespace RequestParts

/-- The head of the parts. -/
def head (r : RequestParts) : Head where
  start := .request r.line
  lines := r.fields.map fieldLine

/-- The parts are those of an RFC 7230 request head. -/
structure Rfc (r : RequestParts) : Prop where
  method_ne : r.line.method ≠ []
  method : ∀ b ∈ r.line.method, isTchar b = true
  uri_ne : r.line.uri ≠ []
  uri : ∀ b ∈ r.line.uri, (b != ascii ' ' && !isCtl b) = true
  major_ne : r.line.major ≠ []
  major : ∀ b ∈ r.line.major, isDigit b = true
  minor_ne : r.line.minor ≠ []
  minor : ∀ b ∈ r.line.minor, isDigit b = true
  name_ne : ∀ f ∈ r.fields, f.1 ≠ []
  name : ∀ f ∈ r.fields, ∀ b ∈ f.1, isTchar b = true
  value : ∀ f ∈ r.fields, ∀ b ∈ f.2, (!isCtl b) = true

/-- The message holds the parts. -/
structure StoredIn (r : RequestParts) (m : HttpMessage) : Prop where
  method : m.method = QString.fromLatin1 r.line.method
  uri : m.uri = QString.fromLatin1 r.line.uri
  majorVersion : m.majorVersion = natValue r.line.major
  minorVersion : m.minorVersion = natValue r.line.minor
  headers : m.headers = Headers.insertAll {} (r.fields.map fun f ↦
    (QString.fromLatin1 f.1, QString.fromLatin1 f.2))

/-- A request head is well formed as the parser sees it. -/
theorem Rfc.wellFormed_line {r : RequestParts} (hr : r.Rfc) : r.line.WellFormed where
  method_ne := hr.method_ne
  method b hb := isTokenChar_iff.2 (Or.inl (hr.method b hb))
  uri := hr.uri
  major_ne := hr.major_ne
  major := hr.major
  minor_ne := hr.minor_ne
  minor := hr.minor

theorem Rfc.isPlainField {r : RequestParts} (hr : r.Rfc) : ∀ f ∈ r.fields, IsPlainField f :=
  fun f hf ↦ ⟨fun b hb ↦ isTokenChar_iff.2 (Or.inl (hr.name f hf b hb)), hr.value f hf⟩

end RequestParts

/-- **The bytes are a request head, and the message holds its parts.** -/
def IsRequestHead (bytes : QByteArray) (m : HttpMessage) : Prop :=
  ∃ r : RequestParts, r.Rfc ∧ bytes = r.head.render ∧ r.StoredIn m

/-- What the parser does not look at in a request line. -/
structure RequestLine.Regular (l : RequestLine) : Prop where
  uri_ne : l.uri ≠ []
  method : ascii '>' ∉ l.method
  major_lt : natValue l.major < 2 ^ 31
  minor_lt : natValue l.minor < 2 ^ 31

/-- No header section line is a continuation line. -/
def NoContinuation (ls : List HeaderLine) : Prop :=
  ∀ l ∈ ls, ∃ name value, l = .field name value

/-- No header name holds the character a token may not hold. -/
def NamesRegular (ls : List HeaderLine) : Prop :=
  ∀ name value, HeaderLine.field name value ∈ ls → ascii '>' ∉ name

/-- Lines without continuation lines are field lines. -/
theorem exists_fields_of_noContinuation {ls : List HeaderLine} (h : NoContinuation ls) :
    ∃ fs : List (QByteArray × QByteArray), fs.map fieldLine = ls := by
  induction ls with
  | nil => exact ⟨[], rfl⟩
  | cons l ls ih =>
    obtain ⟨⟨name, value, rfl⟩, hls⟩ := List.forall_mem_cons.1 h
    obtain ⟨fs, rfl⟩ := ih hls
    exact ⟨(name, value) :: fs, rfl⟩

/-- A field line among well-formed lines is well formed. -/
theorem wellFormed_of_mem {h : Headers} {fs : List (QByteArray × QByteArray)}
    (hfs : LinesWellFormed h (fs.map fieldLine)) : ∀ f ∈ fs, f.1 ≠ [] ∧ IsPlainField f := by
  induction fs generalizing h with
  | nil => exact fun f hf ↦ absurd hf List.not_mem_nil
  | cons f fs ih =>
    obtain ⟨⟨hne, hname, hvalue⟩, hrest⟩ := hfs
    exact List.forall_mem_cons.2 ⟨⟨hne, hname, hvalue⟩, ih hrest⟩

theorem headers_map_fieldLine (start : StartLine) (fs : List (QByteArray × QByteArray)) :
    (Head.mk start (fs.map fieldLine)).headers = Headers.insertAll {} (fs.map fun f ↦
      (QString.fromLatin1 f.1, QString.fromLatin1 f.2)) := by
  rw [Head.headers, Headers.insertAll, List.foldl_map, List.foldl_map]
  rfl

/-- **When a head that is read is a request head** with its parts in the message. -/
theorem isRequestHead_iff_of_head {l : RequestLine} {ls : List HeaderLine}
    (hh : (Head.mk (.request l) ls).WellFormed .request) (hls : NoContinuation ls) {m : HttpMessage}
    (hm : { m with body := [] } = (Head.mk (.request l) ls).message) :
    IsRequestHead (Head.mk (.request l) ls).render m ↔ l.Regular ∧ NamesRegular ls := by
  have hl : l.WellFormed := hh.start.2
  have hmethod : m.method = QString.fromLatin1 l.method := congrArg HttpMessage.method hm
  have huri : m.uri = QString.fromLatin1 l.uri := congrArg HttpMessage.uri hm
  have hmajor : m.majorVersion = intValue l.major := congrArg HttpMessage.majorVersion hm
  have hminor : m.minorVersion = intValue l.minor := congrArg HttpMessage.minorVersion hm
  have hheaders : m.headers = (Head.mk (.request l) ls).headers := congrArg HttpMessage.headers hm
  constructor
  · rintro ⟨r, hr, hrender, hstored⟩
    -- the parts are those the parser reads
    simp only [RequestParts.head, Head.render, Head.renderInit, StartLine.render,
      List.append_assoc] at hrender
    obtain ⟨hline, hrest⟩ := RequestLine.eq_of_render_append_eq hl.separated
      hr.wellFormed_line.separated hrender
    obtain ⟨rfl, -⟩ := lines_eq_of_render_append_eq (x := []) (y := []) hr.isPlainField hh.lines
      (by simpa [crlf] using hrest.symm)
    subst hline
    refine ⟨⟨hr.uri_ne, (isTchar_of_isTokenChar hl.method).1 hr.method, ?_, ?_⟩, ?_⟩
    · exact (intValue_eq_natValue_iff hl.major).1 (hmajor.symm.trans hstored.majorVersion)
    · exact (intValue_eq_natValue_iff hl.minor).1 (hminor.symm.trans hstored.minorVersion)
    · intro name value hmem
      obtain ⟨f, hf, heq⟩ := List.mem_map.1 hmem
      obtain ⟨rfl, rfl⟩ := HeaderLine.field.inj heq
      exact (isTchar_of_isTokenChar (hr.isPlainField f hf).1).1 (hr.name f hf)
  · rintro ⟨hregular, hnames⟩
    obtain ⟨fs, rfl⟩ := exists_fields_of_noContinuation hls
    have hfs := wellFormed_of_mem hh.lines
    refine ⟨⟨l, fs⟩, ?_, rfl, ?_⟩
    · exact
        { method_ne := hl.method_ne
          method := (isTchar_of_isTokenChar hl.method).2 hregular.method
          uri_ne := hregular.uri_ne
          uri := hl.uri
          major_ne := hl.major_ne
          major := hl.major
          minor_ne := hl.minor_ne
          minor := hl.minor
          name_ne := fun f hf ↦ (hfs f hf).1
          name := fun f hf ↦ (isTchar_of_isTokenChar (hfs f hf).2.1).2
            (hnames f.1 f.2 (List.mem_map_of_mem hf))
          value := fun f hf ↦ (hfs f hf).2.2 }
    · exact
        { method := hmethod
          uri := huri
          majorVersion := hmajor.trans ((intValue_eq_natValue_iff hl.major).2 hregular.major_lt)
          minorVersion := hminor.trans ((intValue_eq_natValue_iff hl.minor).2 hregular.minor_lt)
          headers := hheaders.trans (headers_map_fieldLine _ fs) }

/-- **When request parsing is sound**: for every accepted request without continuation lines, the
bytes up to the end of the header section are a request head that is stored as it is exactly when
the target is not empty, no name holds a `>`, and the versions fit in an `int`. -/
theorem isRequestHead_iff {p : HttpMessageParser} {stream rest : QByteArray} {c : Cursor}
    (hparse : parse (Cursor.start .request p).forget stream = (.valid, c, rest)) :
    ∃ (l : RequestLine) (ls : List HeaderLine) (body : Body),
      (WireMessage.mk ⟨.request l, ls⟩ body).WellFormed .request ∧
      stream = (WireMessage.mk ⟨.request l, ls⟩ body).render ++ rest ∧
      (NoContinuation ls →
        (IsRequestHead (Head.mk (.request l) ls).render c.message ↔
          l.Regular ∧ NamesRegular ls)) := by
  obtain ⟨⟨⟨start, ls⟩, body⟩, hw, -, hstream, hmessage⟩ := exists_wireMessage_of_parse hparse
  rcases start with l | l
  · refine ⟨l, ls, body, hw, hstream, fun hls ↦ isRequestHead_iff_of_head hw.head hls ?_⟩
    rw [hmessage]
    exact (Head.message_eq_with_body_nil _).symm
  · exact absurd hw.head.start.1 (by simp)

/-- A `GET` request without fields. -/
def simpleGet (target : String) : Head where
  start := .request
    { method := asciiBytes "GET"
      uri := asciiBytes target
      major := asciiBytes "1"
      minor := asciiBytes "1" }
  lines := []

/-- The parser after it. -/
def simpleGetCursor (target : String) : Cursor :=
  (parse (Cursor.start .request {}).forget (simpleGet target).render).2.1

theorem simpleGet_isRequestHead_iff :
    ∃ (l : RequestLine) (ls : List HeaderLine) (body : Body),
      (WireMessage.mk ⟨.request l, ls⟩ body).WellFormed .request ∧
      (simpleGet "/").render = (WireMessage.mk ⟨.request l, ls⟩ body).render ++ [] ∧
      (NoContinuation ls →
        (IsRequestHead (Head.mk (.request l) ls).render (simpleGetCursor "/").message ↔
          l.Regular ∧ NamesRegular ls)) := by
  have hparse : parse (Cursor.start .request {}).forget (simpleGet "/").render =
      (.valid, simpleGetCursor "/", []) :=
    Prod.ext (by decide +kernel) (Prod.ext rfl (by decide +kernel))
  exact isRequestHead_iff hparse

/-- A request without a target is accepted. -/
theorem simpleGet_empty_not_isRequestHead :
    parse (Cursor.start .request {}).forget (simpleGet "").render =
        (.valid, simpleGetCursor "", []) ∧
      ¬ IsRequestHead (simpleGet "").render (simpleGetCursor "").message := by
  refine ⟨Prod.ext (by decide +kernel) (Prod.ext rfl (by decide +kernel)), fun hhead ↦ ?_⟩
  have hwf : (simpleGet "").WellFormed .request :=
    ⟨⟨rfl, by decide, by decide, by decide, by decide, by decide, by decide, by decide⟩, trivial⟩
  have hmessage : { (simpleGetCursor "").message with body := [] } = (simpleGet "").message := by
    decide +kernel
  have hnone : NoContinuation [] := fun _ hl ↦ absurd hl List.not_mem_nil
  have hiff := isRequestHead_iff_of_head hwf hnone hmessage
  exact (hiff.1 hhead).1.uri_ne rfl

end HttpMessageParser

end Amanuensis
