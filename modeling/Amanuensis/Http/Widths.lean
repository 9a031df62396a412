import Amanuensis.Http.BodyReading
import Amanuensis.Http.Numerals

/-!
# Numbers and the width they are kept in

The parser accumulates versions, status and chunk sizes digit by digit, in 32 and in 64 bits, and
never looks whether a number still fits. To compare what it keeps with what it reads, the run is
annotated with the digit strings read so far (`Numbers`); `Tracks` is the invariant that ties them
to the parser, and `readsExactly_iff` the outcome: the numbers are those of the digit strings, and a
chunk is the last one exactly when its size is written with zeros only, as long as every digit
string that is read fits.
-/

namespace Amanuensis

namespace HttpMessageParser

open Scanner

/-! ### Hexadecimal numbers -/

/-- The number a string of hexadecimal digits denotes. -/
def hexNatValue (digits : QByteArray) : ℕ :=
  digits.foldl (fun v d ↦ v * 16 + (hexValue d).getD 0) 0

theorem hexNatValue_append_singleton (ds : QByteArray) (d : UInt8) :
    hexNatValue (ds ++ [d]) = hexNatValue ds * 16 + (hexValue d).getD 0 := by
  simp [hexNatValue]

/-- **The accumulated size** is the number modulo `2 ^ 64`. -/
theorem sizeValue_eq_ofNat (ds : QByteArray) : sizeValue ds = UInt64.ofNat (hexNatValue ds) := by
  induction ds using List.reverseRecOn with
  | nil => rfl
  | append_singleton ds d ih =>
    rw [sizeValue_append_singleton, ih, hexNatValue_append_singleton, UInt64.ofNat_add,
      UInt64.ofNat_mul]
    rfl

theorem toNat_sizeValue_eq_iff (ds : QByteArray) :
    (sizeValue ds).toNat = hexNatValue ds ↔ hexNatValue ds < 2 ^ 64 := by
  rw [sizeValue_eq_ofNat]
  constructor
  · intro h
    rw [← h]
    exact UInt64.toNat_lt _
  · exact UInt64.toNat_ofNat_of_lt'

theorem hexValue_eq_zero_iff {d : UInt8} (hd : isHex d = true) :
    (hexValue d).getD 0 = 0 ↔ d = ascii '0' := by
  have hall : ∀ n < 256, isHex (UInt8.ofNat n) = true →
      ((hexValue (UInt8.ofNat n)).getD 0 = 0 ↔ UInt8.ofNat n = ascii '0') := by decide +kernel
  have h := hall d.toNat d.toNat_lt
  rw [UInt8.ofNat_toNat] at h
  exact h hd

/-- A number is zero when all its digits are. -/
theorem hexNatValue_eq_zero_iff {ds : QByteArray} (hds : ∀ d ∈ ds, isHex d = true) :
    hexNatValue ds = 0 ↔ ∀ d ∈ ds, d = ascii '0' := by
  induction ds using List.reverseRecOn with
  | nil => simp [hexNatValue]
  | append_singleton ds d ih =>
    have hprefix := ih fun c hc ↦ hds c (List.mem_append_left _ hc)
    have hd := hexValue_eq_zero_iff (hds d (by simp))
    rw [hexNatValue_append_singleton, List.forall_mem_append, List.forall_mem_singleton, ← hprefix,
      ← hd]
    omega

/-! ### Digit strings along a run -/

/-- The digit strings read so far; of the chunk sizes, the last one. -/
structure Numbers where
  major : QByteArray := []
  minor : QByteArray := []
  status : QByteArray := []
  size : QByteArray := []
  /-- What the last digit of the size left in `remaining_`. -/
  loaded : UInt64 := 0

/-- A byte read in the state of `c`, and leading to `c'`, starts a digit string, extends one, or
does neither. -/
def Numbers.read (n : Numbers) (c : Cursor) (input : UInt8) (c' : Cursor) : Numbers :=
  match c.parser.state with
  | .httpVersionMajorStart | .responseMajorVersionStart =>
    if isDigit input then { n with major := [input] } else n
  | .httpVersionMajor | .responseMajorVersion =>
    if isDigit input then { n with major := n.major ++ [input] } else n
  | .httpVersionMinorStart | .responseMinorVersionStart =>
    if isDigit input then { n with minor := [input] } else n
  | .httpVersionMinor | .responseMinorVersion =>
    if isDigit input then { n with minor := n.minor ++ [input] } else n
  | .responseStatusCodeStart => if isDigit input then { n with status := [input] } else n
  | .responseStatusCode =>
    if isDigit input then { n with status := n.status ++ [input] } else n
  | .chunkLengthStart =>
    if isHex input then { n with size := [input], loaded := c'.parser.remaining } else n
  | .chunkLength =>
    if isHex input then { n with size := n.size ++ [input], loaded := c'.parser.remaining } else n
  | _ => n

/-- The parser with the digit strings noted. -/
def numberScanner : Scanner (Cursor × Numbers) UInt8 Outcome := scanner.annotate Numbers.read

/-- The digit strings read from a stream by a reset parser. -/
def numbersRead (mode : Mode) (p : HttpMessageParser) (stream : QByteArray) : Numbers :=
  (numberScanner.scan ((Cursor.start mode p).forget, {}) stream).state.2

/-- The numbers fit: 32 bits with a sign for versions and status, 64 bits for a size. -/
structure Numbers.Fit (n : Numbers) : Prop where
  major : natValue n.major < 2 ^ 31
  minor : natValue n.minor < 2 ^ 31
  status : natValue n.status < 2 ^ 31
  size : hexNatValue n.size < 2 ^ 64

/-- The parser has kept the numbers that were read. -/
structure Numbers.Exact (n : Numbers) (c : Cursor) : Prop where
  major : n.major ≠ [] → c.message.majorVersion = natValue n.major
  minor : n.minor ≠ [] → c.message.minorVersion = natValue n.minor
  status : n.status ≠ [] → c.message.statusCode = natValue n.status
  size : n.size ≠ [] → n.loaded.toNat = hexNatValue n.size
  /-- The last chunk is written with zeros only, -/
  last : c.parser.state = .chunkTrailingHeaderLineStart ∨
    c.parser.state = .chunkTerminatingNewline → ∀ d ∈ n.size, d = ascii '0'
  /-- and no other chunk is. -/
  data : c.parser.state = .chunk → ¬ ∀ d ∈ n.size, d = ascii '0'

/-- **No number is accepted modulo its width**: of every part of the stream on which the parser
returns `Valid` or `Incomplete`, it has kept the numbers that were read. -/
def ReadsExactly (mode : Mode) (p : HttpMessageParser) (stream : QByteArray) : Prop :=
  ∀ bytes, bytes <+: stream →
    (parse (Cursor.start mode p).forget bytes).1 = .valid ∨
      (parse (Cursor.start mode p).forget bytes).1 = .incomplete →
    (numbersRead mode p bytes).Exact (parse (Cursor.start mode p).forget bytes).2.1

/-! ### The invariant -/

/-- `value` is what the digits have been accumulated to. -/
def Accumulated (digits : QByteArray) (value : ℤ) : Prop :=
  (∀ d ∈ digits, isDigit d = true) ∧ (digits ≠ [] → value = intValue digits)

theorem accumulated_nil (value : ℤ) : Accumulated [] value := ⟨by simp, fun h ↦ absurd rfl h⟩

theorem accumulated_singleton {d : UInt8} (hd : isDigit d = true) :
    Accumulated [d] (digitValue d) :=
  ⟨by simpa using hd, fun _ ↦ (intValue_singleton hd).symm⟩

theorem Accumulated.concat {ds : QByteArray} {value : ℤ} (h : Accumulated ds value) (hne : ds ≠ [])
    {d : UInt8} (hd : isDigit d = true) :
    Accumulated (ds ++ [d]) (toInt (toInt (value * 10) + digitValue d)) := by
  refine ⟨?_, fun _ ↦ ?_⟩
  · rw [List.forall_mem_append]
    exact ⟨h.1, by simpa using hd⟩
  · rw [intValue_append_singleton, h.2 hne]

/-- Accumulated digits are kept exactly as long as their number fits. -/
theorem Accumulated.exact_iff {ds : QByteArray} {value : ℤ} (h : Accumulated ds value) :
    (ds ≠ [] → value = natValue ds) ↔ natValue ds < 2 ^ 31 := by
  rw [← intValue_eq_natValue_iff h.1]
  by_cases hne : ds = []
  · subst hne
    simp [intValue, natValue]
  · simp [hne, h.2 hne]

/-- What the state says of the digit strings read so far. -/
def StateTracks (state : ParserState) (remaining : UInt64) (n : Numbers) : Prop :=
  match state with
  | .methodStart | .method | .uri | .httpVersionH | .httpVersionT1 | .httpVersionT2
  | .httpVersionP | .httpVersionSlash => n.major = [] ∧ n.minor = []
  | .httpVersionMajor | .responseMajorVersion => n.major ≠ []
  | .httpVersionMinor | .responseMinorVersion => n.minor ≠ []
  | .responseStatusCode => n.status ≠ []
  | .chunkLength | .chunkLengthNewline => n.size ≠ [] ∧ remaining = n.loaded
  | .chunk => n.loaded ≠ 0
  | .chunkTrailingHeaderLineStart | .chunkTerminatingNewline => n.size ≠ [] ∧ n.loaded = 0
  | _ => True

/-- **The invariant**: what is kept is what the digit strings have been accumulated to. -/
structure Tracks (c : Cursor) (n : Numbers) : Prop where
  major : Accumulated n.major c.message.majorVersion
  minor : Accumulated n.minor c.message.minorVersion
  status : Accumulated n.status c.message.statusCode
  size_hex : ∀ d ∈ n.size, isHex d = true
  loaded : n.loaded = sizeValue n.size
  state : StateTracks c.parser.state c.parser.remaining n

theorem tracks_start (mode : Mode) (p : HttpMessageParser) :
    Tracks (Cursor.start mode p).forget {} where
  major := accumulated_nil _
  minor := accumulated_nil _
  status := accumulated_nil _
  size_hex := by simp
  loaded := rfl
  state := by cases mode <;> simp [StateTracks, Cursor.start, resetForRequest, resetForResponse]

/-- A byte that is no part of a number. -/
theorem Tracks.frame {c c' : Cursor} {n : Numbers} (h : Tracks c n)
    (hmajor : c'.message.majorVersion = c.message.majorVersion)
    (hminor : c'.message.minorVersion = c.message.minorVersion)
    (hstatus : c'.message.statusCode = c.message.statusCode)
    (hstate : StateTracks c'.parser.state c'.parser.remaining n) : Tracks c' n where
  major := hmajor ▸ h.major
  minor := hminor ▸ h.minor
  status := hstatus ▸ h.status
  size_hex := h.size_hex
  loaded := h.loaded
  state := hstate

/-- **Every byte keeps the invariant**, whatever the outcome. -/
theorem Tracks.consume {c : Cursor} {n : Numbers} (h : Tracks c n) (input : UInt8) :
    Tracks (consume c input).2 (n.read c input (HttpMessageParser.consume c input).2) := by
  rcases c with ⟨⟨state, remaining, buffer, valueBuffer⟩, message, phase⟩
  have hstate := h.state
  cases state
  case httpVersionMajorStart | responseMajorVersionStart =>
    dsimp only [HttpMessageParser.consume, Numbers.read]
    split_ifs with hd
    · exact { h with
        major := accumulated_singleton hd
        state := List.cons_ne_nil _ _ }
    · exact h
  case httpVersionMajor | responseMajorVersion =>
    have hdot : isDigit (ascii '.') = false := by decide
    dsimp only [HttpMessageParser.consume, Numbers.read]
    split_ifs with hsep hd hd
    · rw [hsep, hdot] at hd
      exact Bool.noConfusion hd
    · exact h.frame rfl rfl rfl trivial
    · exact { h with
        major := h.major.concat hstate hd
        state := List.concat_ne_nil _ _ }
    · exact h
  case httpVersionMinorStart | responseMinorVersionStart =>
    dsimp only [HttpMessageParser.consume, Numbers.read]
    split_ifs with hd
    · exact { h with
        minor := accumulated_singleton hd
        state := List.cons_ne_nil _ _ }
    · exact h
  case httpVersionMinor | responseMinorVersion =>
    have hcr : isDigit (ascii '\r') = false := by decide
    have hsp : isDigit (ascii ' ') = false := by decide
    dsimp only [HttpMessageParser.consume, Numbers.read]
    split_ifs with hsep hd hd
    · rw [hsep] at hd
      simp [hcr, hsp] at hd
    · exact h.frame rfl rfl rfl trivial
    · exact { h with
        minor := h.minor.concat hstate hd
        state := List.concat_ne_nil _ _ }
    · exact h
  case responseStatusCodeStart =>
    dsimp only [HttpMessageParser.consume, Numbers.read]
    split_ifs with hd
    · exact { h with
        status := accumulated_singleton hd
        state := List.cons_ne_nil _ _ }
    · exact h
  case responseStatusCode =>
    have hsp : isDigit (ascii ' ') = false := by decide
    dsimp only [HttpMessageParser.consume, Numbers.read]
    split_ifs with hsep hd hd
    · rw [hsep, hsp] at hd
      exact Bool.noConfusion hd
    · exact h.frame rfl rfl rfl trivial
    · exact { h with
        status := h.status.concat hstate hd
        state := List.concat_ne_nil _ _ }
    · exact h
  case httpVersionSlash =>
    -- the versions are reset here, before any digit of them has been read
    dsimp only [HttpMessageParser.consume, Numbers.read]
    split_ifs
    · exact { h with
        major := hstate.1 ▸ accumulated_nil _
        minor := hstate.2 ▸ accumulated_nil _
        state := trivial }
    · exact h
  case chunkLengthStart =>
    dsimp only [HttpMessageParser.consume, Numbers.read]
    split_ifs with hd
    · obtain ⟨v, hv⟩ := exists_hexValue_of_isHex hd
      simp only [hv]
      exact { h with
        size_hex := List.forall_mem_singleton.2 hd
        loaded := by simp [sizeValue, hv]
        state := ⟨List.cons_ne_nil _ _, rfl⟩ }
    · exact h
  case chunkLength =>
    have hcr : isHex (ascii '\r') = false := by decide
    obtain ⟨hne, hremaining⟩ := hstate
    have hremaining : remaining = n.loaded := hremaining
    dsimp only [HttpMessageParser.consume, Numbers.read]
    split_ifs with hsep hd hd
    · rw [hsep, hcr] at hd
      exact Bool.noConfusion hd
    · exact h.frame rfl rfl rfl ⟨hne, hremaining⟩
    · obtain ⟨v, hv⟩ := exists_hexValue_of_isHex hd
      simp only [hv]
      have hloaded : remaining * 16 + UInt64.ofNat v = sizeValue (n.size ++ [input]) := by
        rw [sizeValue_append_singleton, ← h.loaded, ← hremaining, hv]
        rfl
      exact { h with
        size_hex := List.forall_mem_append.2 ⟨h.size_hex, List.forall_mem_singleton.2 hd⟩
        loaded := hloaded
        state := ⟨List.concat_ne_nil _ _, rfl⟩ }
    · exact h
    · exact h
  case chunkLengthNewline =>
    obtain ⟨hne, hremaining⟩ := hstate
    have hremaining : remaining = n.loaded := hremaining
    dsimp only [HttpMessageParser.consume, Numbers.read]
    split_ifs with hlf hpos
    · have hloaded : n.loaded ≠ 0 := by
        rw [← hremaining]
        exact UInt64.pos_iff_ne_zero.1 hpos
      exact h.frame rfl rfl rfl hloaded
    · refine h.frame rfl rfl rfl ⟨hne, ?_⟩
      rw [← hremaining]
      by_contra hzero
      exact hpos (UInt64.pos_iff_ne_zero.2 hzero)
    · exact h
  all_goals dsimp only [HttpMessageParser.consume, Numbers.read, expect, Cursor.endHeaders]
  all_goals repeat' split
  all_goals first
    | exact h
    | exact h.frame rfl rfl rfl hstate
    | exact h.frame rfl rfl rfl trivial

/-- **The invariant holds all along a run.** -/
theorem tracks_numbersRead (mode : Mode) (p : HttpMessageParser) (stream : QByteArray) :
    Tracks (scanner.scan (Cursor.start mode p).forget stream).state
      (numbersRead mode p stream) := by
  have hrun := numberScanner.scan_state_induction (P := fun s ↦ Tracks s.1 s.2) ?_
    (s := ((Cursor.start mode p).forget, {})) (tracks_start mode p) stream
  · rw [scanner.scan_annotate Numbers.read _ {}]
    exact hrun
  · rintro ⟨c, n⟩ input h
    have hstep := h.consume input
    have hread : n.read c input (scanner.step c input).2 =
        n.read c input (HttpMessageParser.consume c input).2 := by
      simp only [Numbers.read, parser_scanner_step]
    show Tracks (scanner.step c input).2 (n.read c input (scanner.step c input).2)
    rw [hread]
    have hmessage := message_scanner_step c input
    refine hstep.frame ?_ ?_ ?_ ?_
    · rw [hmessage]
    · rw [hmessage]
    · rw [hmessage]
    · rw [parser_scanner_step]
      exact hstep.state

/-- **What is kept is exact as long as it fits.** -/
theorem Tracks.exact_iff {c : Cursor} {n : Numbers} (h : Tracks c n) : n.Exact c ↔ n.Fit := by
  have hsize : (n.size ≠ [] → n.loaded.toNat = hexNatValue n.size) ↔
      hexNatValue n.size < 2 ^ 64 := by
    rw [h.loaded, ← toNat_sizeValue_eq_iff]
    by_cases hne : n.size = []
    · rw [hne]
      simp [sizeValue, hexNatValue]
    · simp [hne]
  have hzero (hlt : hexNatValue n.size < 2 ^ 64) :
      n.loaded = 0 ↔ ∀ d ∈ n.size, d = ascii '0' := by
    rw [← hexNatValue_eq_zero_iff h.size_hex, ← (toNat_sizeValue_eq_iff n.size).2 hlt, h.loaded,
      ← UInt64.toNat_inj]
    rfl
  constructor
  · intro hexact
    exact ⟨h.major.exact_iff.1 hexact.major, h.minor.exact_iff.1 hexact.minor,
      h.status.exact_iff.1 hexact.status, hsize.1 hexact.size⟩
  · intro hfit
    refine ⟨h.major.exact_iff.2 hfit.major, h.minor.exact_iff.2 hfit.minor,
      h.status.exact_iff.2 hfit.status, hsize.2 hfit.size, ?_, ?_⟩
    · have hstate := h.state
      rintro (hs | hs) <;> rw [hs] at hstate <;> exact (hzero hfit.size).1 hstate.2
    · have hstate := h.state
      intro hs
      rw [hs] at hstate
      exact fun hall ↦ hstate ((hzero hfit.size).2 hall)

/-- A byte that is not taken leaves the digit strings as they are. -/
theorem Numbers.read_of_rejected {n : Numbers} {c : Cursor} {input : UInt8}
    (h : (HttpMessageParser.consume c input).1 ≠ .incomplete) (c' : Cursor) :
    n.read c input c' = n := by
  rcases c with ⟨⟨state, remaining, buffer, valueBuffer⟩, message, phase⟩
  -- where a digit would be noted it would have been taken
  have hdigit (hstate : isDigit input = true →
      (HttpMessageParser.consume
        ⟨⟨state, remaining, buffer, valueBuffer⟩, message, phase⟩ input).1 = .incomplete) :
      isDigit input = false := by
    by_contra hd
    exact h (hstate (by simpa using hd))
  have hhex (hstate : isHex input = true →
      (HttpMessageParser.consume
        ⟨⟨state, remaining, buffer, valueBuffer⟩, message, phase⟩ input).1 = .incomplete) :
      isHex input = false := by
    by_contra hd
    exact h (hstate (by simpa using hd))
  cases state
  case httpVersionMajorStart | responseMajorVersionStart | httpVersionMinorStart
      | responseMinorVersionStart | responseStatusCodeStart =>
    simp [Numbers.read, hdigit fun hd ↦ by simp [HttpMessageParser.consume, hd]]
  case httpVersionMajor | responseMajorVersion | httpVersionMinor | responseMinorVersion
      | responseStatusCode =>
    simp [Numbers.read, hdigit fun hd ↦ by
      simp only [HttpMessageParser.consume, hd]
      split <;> rfl]
  case chunkLengthStart =>
    simp [Numbers.read, hhex fun hd ↦ by
      obtain ⟨v, hv⟩ := exists_hexValue_of_isHex hd
      simp [HttpMessageParser.consume, hd, hv]]
  case chunkLength =>
    simp [Numbers.read, hhex fun hd ↦ by
      obtain ⟨v, hv⟩ := exists_hexValue_of_isHex hd
      simp only [HttpMessageParser.consume, hd, hv]
      split <;> rfl]
  all_goals rfl

/-- The notes of a run that is continued by the byte at which it ends. -/
theorem numbersRead_append_of_some {mode : Mode} {p : HttpMessageParser} {bytes : QByteArray}
    (hnone : (scanner.scan (Cursor.start mode p).forget bytes).verdict = none) {input : UInt8}
    {o : Outcome} {c : Cursor}
    (hstep : scanner.step (scanner.scan (Cursor.start mode p).forget bytes).state input =
      (some o, c)) (rest : QByteArray) :
    numbersRead mode p (bytes ++ input :: rest) = numbersRead mode p bytes := by
  have hscan := scanner.scan_annotate Numbers.read (Cursor.start mode p).forget {} bytes
  rw [hscan] at hnone hstep
  have hrejected : (HttpMessageParser.consume
      (numberScanner.scan ((Cursor.start mode p).forget, {}) bytes).state.1 input).1 ≠
        .incomplete := by
    intro hi
    have hnext := scanner_step_of_incomplete (Prod.ext hi rfl)
    exact absurd (hnext.symm.trans hstep) (by simp)
  have hnoted : numberScanner.step
      (numberScanner.scan ((Cursor.start mode p).forget, {}) bytes).state input = _ :=
    scanner.step_annotate hstep _
  rw [numbersRead, numberScanner.scan_append_of_none hnone, numberScanner.scan_cons_of_some hnoted]
  exact Numbers.read_of_rejected hrejected _

/-- **When no number is accepted modulo its width**: exactly when every digit string that is read
fits. -/
theorem readsExactly_iff (mode : Mode) (p : HttpMessageParser) (stream : QByteArray) :
    ReadsExactly mode p stream ↔
      ∀ bytes, bytes <+: stream → (numbersRead mode p bytes).Fit := by
  have htracks := tracks_numbersRead mode p
  have hparse (bytes : QByteArray) := parse_eq_scan (c := (Cursor.start mode p).forget) rfl bytes
  constructor
  · intro hexact bytes hbytes
    have hkept := hexact bytes hbytes
    rw [hparse] at hkept
    dsimp only at hkept
    rcases hverdict : (scanner.scan (Cursor.start mode p).forget bytes).verdict with - | o
    · exact (htracks bytes).exact_iff.1 (hkept (Or.inr (by rw [hverdict]; rfl)))
    · -- the byte at which the run ends is no part of a digit string
      obtain ⟨taken, input, hsplit, hnone, hstep⟩ := scanner.exists_step_of_verdict_some hverdict
      have hprefix : taken <+: stream := (List.prefix_append _ _).trans (hsplit ▸ hbytes)
      have hkept' := hexact taken hprefix
      rw [hparse] at hkept'
      rw [hsplit, numbersRead_append_of_some hnone hstep]
      exact (htracks taken).exact_iff.1 (hkept' (Or.inr (by rw [hnone]; rfl)))
  · intro hfit bytes hbytes _
    rw [hparse]
    exact (htracks bytes).exact_iff.2 (hfit bytes hbytes)

/-- A chunk of `2 ^ 64` bytes, of which none is there. -/
def wrappedChunk : QByteArray :=
  asciiBytes "POST / HTTP/1.1\r\nTransfer-Encoding: chunked\r\n\r\n10000000000000000\r\n\r\n"

/-- Its size wraps around to zero, and the message is accepted. -/
theorem wrappedChunk_not_readsExactly : ¬ ReadsExactly .request {} wrappedChunk := by
  intro hexact
  have hvalid : (parse (Cursor.start .request {}).forget wrappedChunk).1 = .valid := by
    decide +kernel
  have hstate : (parse (Cursor.start .request {}).forget wrappedChunk).2.1.parser.state =
      .chunkTerminatingNewline := by decide +kernel
  have hsize : (numbersRead .request {} wrappedChunk).size = asciiBytes "10000000000000000" := by
    decide +kernel
  have hzeros := (hexact wrappedChunk (List.prefix_refl _) (Or.inl hvalid)).last (Or.inr hstate)
  rw [hsize] at hzeros
  exact absurd (hzeros (ascii '1') List.mem_cons_self) (by decide)

end HttpMessageParser

end Amanuensis
