import Mathlib.Data.List.ReduceOption
import Amanuensis.Foundation.Scanner
import Amanuensis.Http.Parser

/-!
# Incremental parsing

`parse` is a paused run of the scanner whose step is `consume`: with a phase it pauses on a change
of phase (`parse_eq_pause`), without one it runs straight through (`parse_eq_scan`). The phase
never influences anything but itself, so a run with a phase and one without agree on everything
else (`scan_forget`).

`parseLoop` is the loop that both read handlers of a transaction wrap around `parse`; the notes it
makes are a parameter, so that a transaction can notify its observers and a test can just record
the phases. `driveReads` runs it over a sequence of reads. By the scanner's `feed_eq`, cutting a
stream into reads is invisible (`driveReads_eq`).
-/

namespace Amanuensis

namespace HttpMessageParser

/-! ### The phase follows the state -/

@[simp] theorem getPhaseForStateTransition_self (p : ParsePhase) (s : ParserState) :
    getPhaseForStateTransition p s s = p :=
  if_pos rfl

namespace Cursor

/-- The phase of `c'` is the one the transition from the state of `c` to that of `c'` gives. -/
def Follows (c c' : Cursor) : Prop :=
  c'.phase = c.phase.map (getPhaseForStateTransition · c.parser.state c'.parser.state)

theorem follows_of_eq {c c' : Cursor} (hphase : c'.phase = c.phase)
    (hstate : c'.parser.state = c.parser.state) : c.Follows c' := by
  rw [Follows, hphase, hstate]
  cases c.phase <;> simp

theorem follows_endHeaders (c : Cursor) : c.Follows c.endHeaders.2 := by
  unfold endHeaders
  dsimp only
  repeat' split
  all_goals first | exact follows_of_eq rfl rfl | rfl

/-- The cursor of the parse overload without a phase. -/
def forget (c : Cursor) : Cursor := { c with phase := none }

@[simp] theorem parser_forget (c : Cursor) : c.forget.parser = c.parser := rfl

@[simp] theorem message_forget (c : Cursor) : c.forget.message = c.message := rfl

@[simp] theorem phase_forget (c : Cursor) : c.forget.phase = none := rfl

theorem endHeaders_forget (c : Cursor) :
    c.forget.endHeaders = (c.endHeaders.1, c.endHeaders.2.forget) := by
  unfold endHeaders
  dsimp only [message_forget]
  repeat' split
  all_goals rfl

end Cursor

theorem follows_expect (byte : UInt8) (next : ParserState) (c : Cursor) (input : UInt8) :
    c.Follows (expect byte next c input).2 := by
  unfold expect
  split
  · rfl
  · exact Cursor.follows_of_eq rfl rfl

/-- **Every byte moves the phase as it moves the state**, whether or not it transits. -/
theorem follows_consume (c : Cursor) (input : UInt8) : c.Follows (consume c input).2 := by
  unfold consume
  split
  all_goals try dsimp only
  all_goals repeat' split
  all_goals first
    | exact Cursor.follows_of_eq rfl rfl
    | exact follows_expect _ _ c input
    | exact c.follows_endHeaders
    | rfl

theorem expect_forget (byte : UInt8) (next : ParserState) (c : Cursor) (input : UInt8) :
    expect byte next c.forget input =
      ((expect byte next c input).1, (expect byte next c input).2.forget) := by
  unfold expect
  split <;> rfl

/-- **The phase is only observed**: a byte is consumed the same way without one. -/
theorem consume_forget (c : Cursor) (input : UInt8) :
    consume c.forget input = ((consume c input).1, (consume c input).2.forget) := by
  rcases c with ⟨⟨state, remaining, buffer, valueBuffer⟩, message, phase⟩
  cases state
  all_goals dsimp only [consume, Cursor.forget]
  all_goals repeat' split
  all_goals first
    | rfl
    | exact expect_forget _ _ ⟨⟨_, _, _, _⟩, message, phase⟩ input
    | exact Cursor.endHeaders_forget ⟨⟨_, _, _, _⟩, message, phase⟩

/-! ### The scanner of the parser -/

/-- The parser as a scanner: one step is one `consume`, and `Valid` completes the phase. -/
def scanner : Scanner Cursor UInt8 Outcome where
  step c input :=
    match consume c input with
    | (.incomplete, c') => (none, c')
    | (.valid, c') => (some .valid, c'.finish)
    | (o, c') => (some o, c')

theorem scanner_step_of_incomplete {c c' : Cursor} {input : UInt8}
    (h : consume c input = (.incomplete, c')) : scanner.step c input = (none, c') := by
  simp only [scanner, h]

theorem scanner_step_of_valid {c c' : Cursor} {input : UInt8}
    (h : consume c input = (.valid, c')) : scanner.step c input = (some .valid, c'.finish) := by
  simp only [scanner, h]

theorem scanner_step_of_other {c c' : Cursor} {input : UInt8} {o : Outcome}
    (h : consume c input = (o, c')) (hi : o ≠ .incomplete) (hv : o ≠ .valid) :
    scanner.step c input = (some o, c') := by
  cases o <;> simp_all [scanner]

/-- A step that asks for more is an `Incomplete`. -/
theorem consume_of_scanner_step_none {c c' : Cursor} {input : UInt8}
    (h : scanner.step c input = (none, c')) : consume c input = (.incomplete, c') := by
  rcases hc : consume c input with ⟨_ | _ | _ | _ | _, d⟩ <;> simp only [scanner, hc] at h <;>
    simp_all

/-- A step leaves the parser and the message as `consume` does. -/
theorem parser_scanner_step (c : Cursor) (input : UInt8) :
    (scanner.step c input).2.parser = (consume c input).2.parser := by
  simp only [scanner]
  rcases consume c input with ⟨_ | _ | _ | _ | _, c'⟩ <;> rfl

theorem message_scanner_step (c : Cursor) (input : UInt8) :
    (scanner.step c input).2.message = (consume c input).2.message := by
  simp only [scanner]
  rcases consume c input with ⟨_ | _ | _ | _ | _, c'⟩ <;> rfl

/-- Without a phase, a step does what it does with one. -/
theorem scanner_step_forget (c : Cursor) (input : UInt8) :
    scanner.step c.forget input =
      ((scanner.step c input).1, (scanner.step c input).2.forget) := by
  simp only [scanner, consume_forget]
  rcases consume c input with ⟨_ | _ | _ | _ | _, c'⟩ <;> rfl

/-- **Dropping the phase drops nothing else.** -/
theorem scan_forget (c : Cursor) (bytes : QByteArray) :
    scanner.scan c.forget bytes =
      ⟨(scanner.scan c bytes).verdict, (scanner.scan c bytes).state.forget,
        (scanner.scan c bytes).rest⟩ :=
  scanner.scan_map Cursor.forget scanner_step_forget c bytes

/-- The outcome of a run: no verdict is `Incomplete`. -/
def outcomeOf (verdict : Option Outcome) : Outcome := verdict.getD .incomplete

theorem outcomeOf_eq_valid_iff {v : Option Outcome} : outcomeOf v = .valid ↔ v = some .valid := by
  cases v <;> simp [outcomeOf]

theorem isSome_phase_consume (c : Cursor) (input : UInt8) :
    (consume c input).2.phase.isSome = c.phase.isSome := by
  rw [follows_consume c input, Option.isSome_map]

/-- **`parse` is a paused scan.** -/
theorem parseFrom_eq_pause {startingPhase : ParsePhase} {start : Option ParsePhase} {c : Cursor}
    (hstart : start = if c.phase.isSome then some startingPhase else none)
    (bytes : QByteArray) :
    parseFrom startingPhase c bytes =
      (outcomeOf (scanner.pause Cursor.phase start c bytes).verdict,
        (scanner.pause Cursor.phase start c bytes).state,
        (scanner.pause Cursor.phase start c bytes).rest) := by
  induction bytes generalizing c with
  | nil => rfl
  | cons input rest ih =>
    have hsome := isSome_phase_consume c input
    rw [parseFrom]
    rcases hc : consume c input with ⟨o, c'⟩
    rw [hc] at hsome
    cases o with
    | incomplete =>
      have hs := scanner_step_of_incomplete hc
      have hiff : (c'.phase.isSome ∧ c'.phase ≠ some startingPhase) ↔ c'.phase ≠ start := by
        rw [hstart, ← hsome]
        cases c'.phase <;> simp
      by_cases hpause : c'.phase = start
      · rw [scanner.pause_cons_of_eq Cursor.phase hs hpause]
        dsimp only
        rw [if_neg (by rw [hiff]; simpa using hpause)]
        exact ih (by rw [hstart, ← hsome])
      · rw [scanner.pause_cons_of_ne Cursor.phase hs hpause]
        exact if_pos (hiff.2 hpause)
    | valid =>
      rw [scanner.pause_cons_of_some Cursor.phase (scanner_step_of_valid hc)]
      rfl
    | invalid | fatal _ | thrown _ =>
      rw [scanner.pause_cons_of_some Cursor.phase
        (scanner_step_of_other hc (by simp) (by simp))]
      rfl

theorem parse_eq_pause (c : Cursor) (bytes : QByteArray) :
    parse c bytes =
      (outcomeOf (scanner.pause Cursor.phase c.phase c bytes).verdict,
        (scanner.pause Cursor.phase c.phase c bytes).state,
        (scanner.pause Cursor.phase c.phase c bytes).rest) := by
  rw [parse]
  refine parseFrom_eq_pause ?_ bytes
  cases c.phase <;> simp

/-- A run without a phase has no pause. -/
theorem pause_eq_scan_of_phase_none {c : Cursor} (h : c.phase = none) (bytes : QByteArray) :
    scanner.pause Cursor.phase none c bytes = scanner.scan c bytes := by
  refine scanner.pause_eq_scan Cursor.phase (fun c input c' hc hstep ↦ ?_) h bytes
  have hsome := isSome_phase_consume c input
  rw [consume_of_scanner_step_none hstep, hc] at hsome
  simpa using hsome

/-- **The overload without a phase runs straight through.** -/
theorem parse_eq_scan {c : Cursor} (h : c.phase = none) (bytes : QByteArray) :
    parse c bytes =
      (outcomeOf (scanner.scan c bytes).verdict, (scanner.scan c bytes).state,
        (scanner.scan c bytes).rest) := by
  rw [parse_eq_pause, h, pause_eq_scan_of_phase_none h]

/-! ### The loop of the read handlers -/

/-- The loop around `parse` in the read handlers: while the result is `Incomplete` and the phase
has changed, note the phase and parse the rest of the read. The first argument bounds the number of
calls of `parse`. -/
def parseLoop {τ : Type*} (notify : ParsePhase → τ → τ) :
    ℕ → τ → Cursor → QByteArray → Option (τ × Outcome × Cursor × QByteArray)
  | 0, _, _, _ => none
  | calls + 1, t, c, bytes =>
    match parse c bytes with
    | (state, c', rest) =>
      if state = .incomplete ∧ c'.phase ≠ c.phase then
        parseLoop notify calls (c'.phase.elim t (notify · t)) c' rest
      else some (t, state, c', rest)

/-- Reads are parsed one after the other until a result is not `Incomplete`. Returns the notes, the
result, the cursor and the number of bytes consumed. -/
def driveReads {τ : Type*} (notify : ParsePhase → τ → τ) (calls : ℕ) :
    τ → Cursor → ℕ → List QByteArray → Option (τ × Outcome × Cursor × ℕ)
  | t, c, consumed, [] => some (t, .incomplete, c, consumed)
  | t, c, consumed, bytes :: reads =>
    match parseLoop notify calls t c bytes with
    | none => none
    | some (t', .incomplete, c', rest) =>
      driveReads notify calls t' c' (consumed + (bytes.length - rest.length)) reads
    | some (t', state, c', rest) =>
      some (t', state, c', consumed + (bytes.length - rest.length))

/-- A verdict of the scanner is not `Incomplete`. -/
theorem ne_incomplete_of_step {c c' : Cursor} {input : UInt8} {o : Outcome}
    (h : scanner.step c input = (some o, c')) : o ≠ .incomplete := by
  simp only [scanner] at h
  rcases hc : consume c input with ⟨_ | _ | _ | _ | _, d⟩ <;> rw [hc] at h <;>
    simp only [Prod.mk.injEq, Option.some.injEq, reduceCtorEq, false_and] at h <;>
    simp [← h.1]

theorem ne_incomplete_of_scan {c : Cursor} {bytes : QByteArray} {o : Outcome}
    (h : (scanner.scan c bytes).verdict = some o) : o ≠ .incomplete := by
  induction bytes generalizing c with
  | nil => exact absurd h (by simp)
  | cons input rest ih =>
    rcases hs : scanner.step c input with ⟨_ | o', c'⟩
    · rw [scanner.scan_cons_of_none hs] at h
      exact ih h
    · rw [scanner.scan_cons_of_some hs] at h
      obtain rfl : o' = o := by simpa using h
      exact ne_incomplete_of_step hs

theorem outcomeOf_eq_incomplete_iff {c : Cursor} {bytes : QByteArray} :
    outcomeOf (scanner.scan c bytes).verdict = .incomplete ↔
      (scanner.scan c bytes).verdict = none := by
  rcases h : (scanner.scan c bytes).verdict with - | o
  · simp [outcomeOf]
  · simpa [outcomeOf] using ne_incomplete_of_scan h

/-- A pause gives the same verdict as the scan it is part of, or none. -/
theorem ne_incomplete_of_pause {start : Option ParsePhase} {c : Cursor} {bytes : QByteArray}
    {o : Outcome} (h : (scanner.pause Cursor.phase start c bytes).verdict = some o) :
    o ≠ .incomplete := by
  induction bytes generalizing c with
  | nil => exact absurd h (by simp [Scanner.pause])
  | cons input rest ih =>
    rcases hs : scanner.step c input with ⟨_ | o', c'⟩
    · by_cases ho : c'.phase = start
      · rw [scanner.pause_cons_of_eq Cursor.phase hs ho] at h
        exact ih h
      · rw [scanner.pause_cons_of_ne Cursor.phase hs ho] at h
        exact absurd h (by simp)
    · rw [scanner.pause_cons_of_some Cursor.phase hs] at h
      obtain rfl : o' = o := by simpa using h
      exact ne_incomplete_of_step hs

/-- The loop is the scanner's `pump`. -/
theorem parseLoop_eq_pump {τ : Type*} (notify : ParsePhase → τ → τ) (calls : ℕ) (t : τ)
    (c : Cursor) (bytes : QByteArray) :
    parseLoop notify calls t c bytes =
      (scanner.pump Cursor.phase (fun o t ↦ o.elim t (notify · t)) calls t c bytes).map
        fun r ↦ (r.1, outcomeOf r.2.verdict, r.2.state, r.2.rest) := by
  induction calls generalizing t c bytes with
  | zero => rfl
  | succ calls ih =>
    rw [parseLoop, parse_eq_pause, Scanner.pump]
    rcases hp : scanner.pause Cursor.phase c.phase c bytes with ⟨_ | o, c', rest⟩
    · dsimp only [outcomeOf, Option.getD_none, Option.isNone_none]
      by_cases ho : c'.phase = c.phase
      · simp [ho]
      · rw [if_pos ⟨rfl, ho⟩, if_pos ⟨rfl, ho⟩]
        exact ih _ c' rest
    · have hverdict : (scanner.pause Cursor.phase c.phase c bytes).verdict = some o := by rw [hp]
      have hne := ne_incomplete_of_pause hverdict
      simp [outcomeOf, hne]

/-- The phases a stream goes through. -/
def phaseChanges (c : Cursor) (bytes : QByteArray) : List ParsePhase :=
  (scanner.changes Cursor.phase c bytes).reduceOption

theorem foldl_elim_eq {τ : Type*} (notify : ParsePhase → τ → τ) (t : τ)
    (phases : List (Option ParsePhase)) :
    phases.foldl (fun t o ↦ o.elim t (notify · t)) t =
      phases.reduceOption.foldl (fun t p ↦ notify p t) t := by
  induction phases generalizing t with
  | nil => rfl
  | cons o phases ih => cases o <;> simp [ih]

/-- **The loop terminates on every read** and does what one straight run does: with more calls than
bytes it ends with the scan's outcome, having noted exactly the phase changes. -/
theorem parseLoop_eq {τ : Type*} (notify : ParsePhase → τ → τ) {calls : ℕ} {bytes : QByteArray}
    (hcalls : bytes.length < calls) (t : τ) (c : Cursor) :
    parseLoop notify calls t c bytes =
      some ((phaseChanges c bytes).foldl (fun t p ↦ notify p t) t,
        outcomeOf (scanner.scan c bytes).verdict, (scanner.scan c bytes).state,
        (scanner.scan c bytes).rest) := by
  rw [parseLoop_eq_pump, scanner.pump_eq _ _ hcalls, Option.map_some, foldl_elim_eq]
  rfl

/-- **Reads are one stream.** -/
theorem driveReads_eq {τ : Type*} (notify : ParsePhase → τ → τ) {calls : ℕ}
    {reads : List QByteArray} (hcalls : ∀ r ∈ reads, r.length < calls) (t : τ) (c : Cursor)
    (consumed : ℕ) :
    driveReads notify calls t c consumed reads =
      some ((phaseChanges c reads.flatten).foldl (fun t p ↦ notify p t) t,
        outcomeOf (scanner.scan c reads.flatten).verdict, (scanner.scan c reads.flatten).state,
        consumed + (reads.flatten.length - (scanner.scan c reads.flatten).rest.length)) := by
  have hfeed := scanner.feed_eq Cursor.phase (fun o t ↦ o.elim t (notify · t)) t c consumed reads
  rw [foldl_elim_eq] at hfeed
  suffices h : driveReads notify calls t c consumed reads =
      (scanner.feed Cursor.phase (fun o t ↦ o.elim t (notify · t)) t c consumed reads).map
        fun r ↦ (r.1, outcomeOf r.2.1, r.2.2.1, r.2.2.2) by
    rw [h, hfeed]
    rfl
  clear hfeed
  induction reads generalizing t c consumed with
  | nil => rfl
  | cons bytes reads ih =>
    have hlt : bytes.length < calls := hcalls bytes List.mem_cons_self
    have hrest : ∀ r ∈ reads, r.length < calls := fun r hr ↦
      hcalls r (List.mem_cons_of_mem bytes hr)
    rw [driveReads, Scanner.feed, parseLoop_eq notify hlt,
      scanner.pump_eq Cursor.phase _ (Nat.lt_succ_self bytes.length), foldl_elim_eq]
    rcases hs : scanner.scan c bytes with ⟨_ | o, c', rest⟩
    · exact ih hrest _ c' _
    · have hverdict : (scanner.scan c bytes).verdict = some o := by rw [hs]
      have hne := ne_incomplete_of_scan hverdict
      cases o <;> first | exact absurd rfl hne | rfl

/-! ### Cutting a stream -/

/-- The two kinds of message a parser is reset for. -/
inductive Mode
  | request
  | response
  deriving DecidableEq, Repr

/-- A reset parser, a fresh message and the phase `Start`. -/
def Cursor.start (mode : Mode) (p : HttpMessageParser) : Cursor :=
  { parser :=
      match mode with
      | .request => p.resetForRequest
      | .response => p.resetForResponse
    message := {}
    phase := some .start }

/-- **Parsing does not depend on how the stream is cut into reads.** Every cut of a stream into
reads ends, with the loop terminating on each read, in the same result, message, number of bytes
consumed and sequence of phase changes; and the result, the message and the bytes left over are
those of the plain `parse` of the whole stream. -/
theorem parse_independent_of_cut (mode : Mode) (p : HttpMessageParser) (stream : QByteArray) :
    ∃ (phases : List ParsePhase) (state : Outcome) (c : Cursor) (consumed : ℕ),
      (∀ reads : List QByteArray, (∀ r ∈ reads, r ≠ []) → reads.flatten = stream →
        ∃ enough : ℕ, ∀ calls ≥ enough,
          driveReads (fun phase phases ↦ phases ++ [phase]) calls [] (.start mode p) 0 reads =
            some (phases, state, c, consumed)) ∧
      parse (Cursor.start mode p).forget stream = (state, c.forget, stream.drop consumed) := by
  let c₀ := Cursor.start mode p
  let r := scanner.scan c₀ stream
  refine ⟨(phaseChanges c₀ stream).foldl (fun t p ↦ t ++ [p]) [], outcomeOf r.verdict, r.state,
    stream.length - r.rest.length, ?_, ?_⟩
  · rintro reads - rfl
    refine ⟨reads.flatten.length + 1, fun calls hcalls ↦ ?_⟩
    rw [driveReads_eq _ (fun b hb ↦ ?_), Nat.zero_add]
    have := (List.sublist_flatten_of_mem hb).length_le
    omega
  · rw [parse_eq_scan c₀.phase_forget, scan_forget, ← List.suffix_iff_eq_drop.1]
    exact scanner.rest_suffix c₀ stream

end HttpMessageParser

end Amanuensis
