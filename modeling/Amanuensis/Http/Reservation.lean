import Amanuensis.Http.Folding

/-!
# Reserving the body

At the end of a head that announces a length, `message.body_.reserve(length)` asks for the whole
body at once. The length is the peer's, any number below `2 ^ 64`, and where the allocation is
refused `std::bad_alloc` leaves `consume`; nothing catches it.

`consume` stands for the code when the body can be reserved. `consumeWith` is the code with any
allocator, of which all that counts is which lengths it `reserves`. The two differ at that one byte
(`overReserves_or_scan_eq`). With it, `parsesSafely_iff` says which streams abort the process.
-/

namespace Amanuensis

namespace HttpMessageParser

open Scanner

/-! ### The parser with an allocator -/

/-- What `reserve` throws. -/
def badAlloc : Outcome := .thrown "std::bad_alloc"

/-- The step from the end of a head to a body of known length, where the body is not reserved. -/
def refusesBody (reserves : UInt64 → Bool) (c c' : Cursor) : Bool :=
  c.parser.state = .newline3 && c'.parser.state = .fixedLengthEntity &&
    !reserves c'.parser.remaining

/-- One byte, with an allocator. -/
def consumeWith (reserves : UInt64 → Bool) (c : Cursor) (input : UInt8) : Outcome × Cursor :=
  match consume c input with
  | (.incomplete, c') =>
    -- `message.body_.reserve(static_cast<size_t>(length))`, before `Incomplete` is returned
    if refusesBody reserves c c' then (badAlloc, c') else (.incomplete, c')
  | (o, c') => (o, c')

/-- The scanner of `consumeWith`. -/
def scannerWith (reserves : UInt64 → Bool) : Scanner Cursor UInt8 Outcome where
  step c input :=
    match consumeWith reserves c input with
    | (.incomplete, c') => (none, c')
    | (.valid, c') => (some .valid, c'.finish)
    | (o, c') => (some o, c')

/-- Parse the bytes of a read with an allocator, up to the end of the message or a change of
phase. -/
def parseWith (reserves : UInt64 → Bool) (c : Cursor) (bytes : QByteArray) :
    Outcome × Cursor × QByteArray :=
  let r := (scannerWith reserves).pause Cursor.phase c.phase c bytes
  (outcomeOf r.verdict, r.state, r.rest)

variable {reserves : UInt64 → Bool}

/-- It is the parser's scanner, which refuses some steps. -/
theorem scannerWith_eq_refuse (reserves : UInt64 → Bool) :
    scannerWith reserves = scanner.refuse (refusesBody reserves) badAlloc := by
  refine congrArg Scanner.mk (funext₂ fun c input ↦ ?_)
  simp only [scanner, consumeWith]
  rcases consume c input with ⟨_ | _ | _ | _ | _, c'⟩
  · cases hrefuses : refusesBody reserves c c' <;> simp [hrefuses, badAlloc]
  all_goals rfl

theorem refusesBody_iff {c c' : Cursor} :
    refusesBody reserves c c' = true ↔ c.parser.state = .newline3 ∧
      c'.parser.state = .fixedLengthEntity ∧ reserves c'.parser.remaining = false := by
  simp [refusesBody, and_assoc]

theorem scannerWith_step_of_refused {c c' : Cursor} {input : UInt8}
    (h : consume c input = (.incomplete, c')) (hc : refusesBody reserves c c' = true) :
    (scannerWith reserves).step c input = (some badAlloc, c') := by
  rw [scannerWith_eq_refuse]
  exact scanner.step_refuse_of_refused (scanner_step_of_incomplete h) hc

/-- The parser without an allocator, up to the first body that is refused. -/
theorem scanWith_cases (reserves : UInt64 → Bool) (c : Cursor) (bytes : QByteArray) :
    (scannerWith reserves).scan c bytes = scanner.scan c bytes ∨
      ∃ before input after c', bytes = before ++ input :: after ∧
        (scanner.scan c before).verdict = none ∧
        scanner.step (scanner.scan c before).state input = (none, c') ∧
        refusesBody reserves (scanner.scan c before).state c' = true := by
  rw [scannerWith_eq_refuse]
  refine (scanner.scan_refuse c bytes).imp_right ?_
  rintro ⟨before, input, after, c', heq, hnone, hstep, hrefuses, -⟩
  exact ⟨before, input, after, c', heq, hnone, hstep, hrefuses⟩

/-- **With room for every body** the parser is `parse`. -/
theorem parseWith_of_forall (hreserves : ∀ length, reserves length = true) :
    parseWith reserves = parse := by
  have hrefuses (c c' : Cursor) : refusesBody reserves c c' = false := by
    simp [refusesBody, hreserves]
  funext c bytes
  rw [parseWith, parse_eq_pause, scannerWith_eq_refuse, scanner.refuse_of_forall hrefuses]

/-- Without a phase, a step does what it does with one. -/
theorem scannerWith_step_forget (reserves : UInt64 → Bool) (c : Cursor) (input : UInt8) :
    (scannerWith reserves).step c.forget input =
      (((scannerWith reserves).step c input).1,
        ((scannerWith reserves).step c input).2.forget) := by
  have hforget := scanner_step_forget c input
  rw [scannerWith_eq_refuse]
  rcases hstep : scanner.step c input with ⟨_ | o, c'⟩
  · rw [hstep] at hforget
    have hsame : refusesBody reserves c.forget c'.forget = refusesBody reserves c c' := rfl
    cases hrefuses : refusesBody reserves c c' with
    | true =>
      rw [scanner.step_refuse_of_refused hstep hrefuses,
        scanner.step_refuse_of_refused hforget (hsame.trans hrefuses)]
    | false =>
      rw [scanner.step_refuse_of_none hstep hrefuses,
        scanner.step_refuse_of_none hforget (hsame.trans hrefuses)]
  · rw [hstep] at hforget
    rw [scanner.step_refuse_of_some hstep, scanner.step_refuse_of_some hforget]

theorem scanWith_forget (c : Cursor) (bytes : QByteArray) :
    (scannerWith reserves).scan c.forget bytes =
      ⟨((scannerWith reserves).scan c bytes).verdict,
        ((scannerWith reserves).scan c bytes).state.forget,
        ((scannerWith reserves).scan c bytes).rest⟩ :=
  (scannerWith reserves).scan_map Cursor.forget (scannerWith_step_forget reserves) c bytes

/-- What has got to the body does not get back to the head. -/
theorem inBody_scan {c : Cursor} (hc : InBody c) (bytes : QByteArray) :
    InBody (scanner.scan c bytes).state := by
  refine scanner.scan_state_induction (P := InBody) (fun c input hc ↦ ?_) hc bytes
  rw [InBody, parser_scanner_step]
  exact (inBody_and_headers_consume hc input).1

/-- A run that stays in the head reserves nothing. -/
theorem scanWith_of_inHead {c : Cursor} {bytes : QByteArray}
    (hend : InHead (scanner.scan c bytes).state) :
    (scannerWith reserves).scan c bytes = scanner.scan c bytes := by
  obtain heq | ⟨before, input, after, c', rfl, hnone, hstep, hrefuses⟩ :=
    scanWith_cases reserves c bytes
  · exact heq
  · obtain ⟨-, hstate, -⟩ := refusesBody_iff.1 hrefuses
    have hbody : InBody c' := by rw [InBody, hstate]; rfl
    rw [scanner.scan_append_of_none hnone, scanner.scan_cons_of_none hstep] at hend
    exact absurd (hend.symm.trans (inBody_scan hbody after)) (by simp)

/-- The stream begins with a head that announces a length which cannot be reserved. -/
def OverReserves (reserves : UInt64 → Bool) (mode : Mode) (stream : QByteArray) : Prop :=
  ∃ h : Head, h.WellFormed mode ∧ h.render <+: stream ∧
    ∃ length, framing h.headers = .fixed length ∧ reserves length = false

/-- Such a head throws at its last byte. -/
theorem OverReserves.verdict_scanWith {mode : Mode} {stream : QByteArray}
    (hover : OverReserves reserves mode stream) (p : HttpMessageParser) :
    ((scannerWith reserves).scan (Cursor.start mode p).forget stream).verdict = some badAlloc := by
  obtain ⟨h, hwf, ⟨rest, rfl⟩, length, hf, hrefused⟩ := hover
  have hread := (reads_head mode p).complete h hwf []
  rw [List.append_nil, scan_nil] at hread
  have hinit : (scannerWith reserves).scan (Cursor.start mode p).forget h.renderInit =
      ⟨none, h.atEnd, []⟩ := by
    rw [← hread]
    refine scanWith_of_inHead ?_
    rw [hread]
    rfl
  have hconsume := consume_atEnd h
  simp only [hf] at hconsume
  have hstep : (scannerWith reserves).step h.atEnd (ascii '\n') =
      (some badAlloc, cursorAt .fixedLengthEntity length h.buffer [] h.message) :=
    scannerWith_step_of_refused hconsume (refusesBody_iff.2 ⟨rfl, rfl, hrefused⟩)
  rw [Head.render, List.append_assoc, scan_append_of_none _ (by rw [hinit]), hinit]
  exact congrArg Scan.verdict (scan_cons_of_some _ hstep rest)

/-- **Anywhere else the allocator makes no difference.** -/
theorem overReserves_or_scan_eq (reserves : UInt64 → Bool) (mode : Mode) (p : HttpMessageParser)
    (stream : QByteArray) :
    OverReserves reserves mode stream ∨
      (scannerWith reserves).scan (Cursor.start mode p).forget stream =
        scanner.scan (Cursor.start mode p).forget stream := by
  obtain heq | ⟨before, input, after, c', rfl, hnone, hstep, hrefuses⟩ :=
    scanWith_cases reserves (Cursor.start mode p).forget stream
  · exact .inr heq
  obtain ⟨hold, hnew, hrefused⟩ := refusesBody_iff.1 hrefuses
  have hread := scanner.scan_concat_of_none hnone input
  rw [hstep] at hread
  have hns : ¬ Stuck InHead .invalid
      (scanner.scan (Cursor.start mode p).forget (before ++ [input])) := by
    rw [hread]
    rintro (hbad | ⟨-, hin⟩)
    · exact absurd hbad (by simp)
    · exact absurd (hin.symm.trans (congrArg ParserState.inHead hnew)) (by decide)
  obtain ⟨h, hwf, rest, heq⟩ := exists_head_of_not_stuck hns
  -- the head ends with this very byte: before it the parser has not left the head
  obtain rfl : rest = [] := by
    rcases rest.eq_nil_or_concat with rfl | ⟨rest, last, rfl⟩
    · rfl
    · rw [List.concat_eq_append, ← List.append_assoc] at heq
      obtain ⟨rfl, -⟩ := List.append_inj' heq rfl
      have hscan := scan_head hwf p rest
      rw [hscan] at hnone hold
      have hbody {s : ParserState} {r : UInt64} (hs : s.inHead = false) :
          InBody (scanner.scan (cursorAt s r h.buffer [] h.message) rest).state :=
        inBody_scan (c := cursorAt s r h.buffer [] h.message) hs rest
      cases hf : framing h.headers with
      | chunked | fixed length =>
        rw [hf] at hold
        have := (congrArg ParserState.inHead hold).symm.trans (hbody rfl)
        exact absurd this (by decide)
      | none | malformed =>
        rw [hf] at hnone
        exact absurd hnone (by simp)
  rw [List.append_nil] at heq
  have hscan := scan_head hwf p []
  rw [List.append_nil, ← heq, hread] at hscan
  refine .inl ⟨h, hwf, ⟨after, by rw [← heq, List.append_assoc]; rfl⟩, ?_⟩
  cases hf : framing h.headers with
  | fixed length =>
    rw [hf] at hscan
    obtain rfl : c' = _ := congrArg Scan.state hscan
    exact ⟨length, rfl, hrefused⟩
  | chunked =>
    rw [hf] at hscan
    obtain rfl : c' = cursorAt .chunkLengthStart 0 h.buffer [] h.message :=
      congrArg Scan.state hscan
    exact absurd (show ParserState.chunkLengthStart = .fixedLengthEntity from hnew) (by decide)
  | none | malformed =>
    rw [hf] at hscan
    exact absurd (congrArg Scan.verdict hscan) (by simp)

/-! ### Giving up -/

/-- A result `consume` returns, as opposed to an abort or an exception. -/
def IsReturned (o : Outcome) : Prop := o = .incomplete ∨ o = .valid ∨ o = .invalid

theorem isReturned_outcome_iff {f : Framing} {body : Body} (h : body.WellFormed f) :
    IsReturned body.outcome ↔ ¬ body.HasExtensionOrTrailer := by
  rcases body with _ | _ | ⟨chunks, _ | _ | _⟩ <;>
    simp [IsReturned, Body.outcome, ChunksEnd.outcome, Body.HasExtensionOrTrailer]

/-- The reads are parsed without an abort and without an exception: from a reset parser, every byte
up to the first `Valid` or `Invalid` yields one of the three results. -/
def ParsesSafely (reserves : UInt64 → Bool) (mode : Mode) (p : HttpMessageParser)
    (reads : List QByteArray) : Prop :=
  ∃ phases verdict c consumed,
    (scannerWith reserves).feed Cursor.phase (fun phase phases ↦ phases ++ [phase]) []
      (Cursor.start mode p) 0 reads = some (phases, verdict, c, consumed) ∧
      IsReturned (outcomeOf verdict)

theorem parsesSafely_iff_verdict (mode : Mode) (p : HttpMessageParser) (reads : List QByteArray) :
    ParsesSafely reserves mode p reads ↔
      IsReturned (outcomeOf
        ((scannerWith reserves).scan (Cursor.start mode p).forget reads.flatten).verdict) := by
  rw [ParsesSafely, (scannerWith reserves).feed_eq, scanWith_forget]
  constructor
  · rintro ⟨phases, verdict, c, consumed, heq, h⟩
    simp only [Option.some.injEq, Prod.mk.injEq] at heq
    rwa [heq.2.1]
  · intro h
    exact ⟨_, _, _, _, rfl, h⟩

/-- Where every body can be reserved. -/
theorem isReturned_scan_iff (mode : Mode) (p : HttpMessageParser) (stream : QByteArray) :
    IsReturned (outcomeOf (scanner.scan (Cursor.start mode p).forget stream).verdict) ↔
      ¬ ∃ w : WireMessage, w.WellFormed mode ∧ w.body.HasExtensionOrTrailer ∧
        w.render <+: stream := by
  constructor
  · rintro h ⟨w, hw, hgivesUp, rest, rfl⟩
    rw [(parses_message mode p).complete w hw] at h
    exact (isReturned_outcome_iff hw.body).1 h hgivesUp
  · intro h
    obtain (hs | ⟨hs, -⟩) | ⟨w, hw, rest, rfl⟩ := (parses_message mode p).sound stream
    · rw [hs]
      exact Or.inr (Or.inr rfl)
    · rw [hs]
      exact Or.inl rfl
    · rw [(parses_message mode p).complete w hw]
      exact (isReturned_outcome_iff hw.body).2 fun hgivesUp ↦ h ⟨w, hw, hgivesUp, rest, rfl⟩

/-- **When a peer can abort the process**: exactly when its stream begins with a chunked message
that gets to a chunk extension or to a trailer, or with a head whose length cannot be reserved. -/
theorem parsesSafely_iff (reserves : UInt64 → Bool) (mode : Mode) (p : HttpMessageParser)
    (reads : List QByteArray) :
    ParsesSafely reserves mode p reads ↔
      (¬ ∃ w : WireMessage, w.WellFormed mode ∧ w.body.HasExtensionOrTrailer ∧
        w.render <+: reads.flatten) ∧ ¬ OverReserves reserves mode reads.flatten := by
  rw [parsesSafely_iff_verdict, ← isReturned_scan_iff mode p]
  by_cases hover : OverReserves reserves mode reads.flatten
  · refine iff_of_false ?_ fun h ↦ h.2 hover
    rw [hover.verdict_scanWith p]
    simp [outcomeOf, IsReturned, badAlloc]
  · obtain hover' | heq := overReserves_or_scan_eq reserves mode p reads.flatten
    · exact absurd hover' hover
    · rw [heq]
      exact (and_iff_left hover).symm

/-- An allocator with `2 ^ 40` bytes. -/
def smallMemory (length : UInt64) : Bool := length.toNat.blt 0x10000000000

/-- A chunk extension in a request aborts, and so does the announcement of a body that is larger
than the memory. -/
theorem not_parsesSafely_extension :
    ¬ ParsesSafely (fun _ ↦ true) .request {}
        [asciiBytes "POST / HTTP/1.1\r\nTransfer-Encoding: chunked\r\n\r\n5;name=value\r\n"] ∧
      ¬ ParsesSafely smallMemory .request {}
        [asciiBytes "GET / HTTP/1.1\r\nContent-Length: 9223372036854775807\r\n\r\n"] := by
  constructor
  · have hverdict : ((scannerWith fun _ ↦ true).scan (Cursor.start .request {}).forget (asciiBytes
        "POST / HTTP/1.1\r\nTransfer-Encoding: chunked\r\n\r\n5;name=value\r\n")).verdict =
        some (.fatal "extensions not implemented") := by decide +kernel
    rw [parsesSafely_iff_verdict, List.flatten_singleton, hverdict]
    simp [outcomeOf, IsReturned]
  · have hverdict : ((scannerWith smallMemory).scan (Cursor.start .request {}).forget
        (asciiBytes "GET / HTTP/1.1\r\nContent-Length: 9223372036854775807\r\n\r\n")).verdict =
        some badAlloc := by decide +kernel
    rw [parsesSafely_iff_verdict, List.flatten_singleton, hverdict]
    simp [outcomeOf, IsReturned, badAlloc]

end HttpMessageParser

end Amanuensis
