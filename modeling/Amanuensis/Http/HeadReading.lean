import Amanuensis.Foundation.Reading
import Amanuensis.Http.Head

/-!
# The parser reads heads

The states of the parser from `method_start` and from `response_start` up to the end of the header
section, read as the grammar of `Head`. Each state contributes its step; the pieces are put
together with the combinators of `Reads`, so that both directions come out together: a rendered
head is read (`scan_head`), and a run that is neither rejected nor still inside the head has read
one (`exists_head_of_not_stuck`).
-/

namespace Amanuensis

/-- The states up to the end of the header section. -/
def ParserState.inHead : ParserState → Bool
  | .chunkLengthStart | .chunkLength | .chunkExtension | .chunkLengthNewline | .chunk
  | .chunkTrailingNewline | .chunkTrailingHeaderLineStart | .chunkTrailingHeaderLws
  | .chunkTrailingHeaderName | .chunkTrailingHeaderSpace | .chunkTrailingHeaderValue
  | .chunkTerminatingNewline | .fixedLengthEntity => false
  | _ => true

namespace HttpMessageParser

open Scanner

/-- The parser has not left the head. -/
def InHead (c : Cursor) : Prop := c.parser.state.inHead = true

/-- Reading a piece of the head. -/
abbrev ReadsHead {ι : Type*} (s : Cursor) (ok : ι → Prop) (render : ι → QByteArray)
    (next : ι → Cursor) : Prop :=
  Reads scanner InHead .invalid s ok render next

/-- A cursor without a phase. -/
abbrev cursorAt (s : ParserState) (r : UInt64) (b v : QByteArray) (m : HttpMessage) : Cursor :=
  ⟨⟨s, r, b, v⟩, m, none⟩

theorem tokenTest_eq (a : UInt8) :
    (!isChar a || isCtl a || isTspecial a) = !isTokenChar a := by
  unfold isTokenChar
  cases isChar a <;> cases isCtl a <;> cases isTspecial a <;> rfl

theorem isCtl_of_isTokenChar {b : UInt8} (hb : isTokenChar b = true) : isCtl b = false := by
  simp only [isTokenChar, Bool.and_eq_true, Bool.not_eq_true'] at hb
  exact hb.1.2

/-- The first digit is stored as it is. -/
theorem intValue_singleton {d : UInt8} (hd : isDigit d = true) : intValue [d] = digitValue d := by
  have hlo := isDigit_iff.1 hd
  have hval : digitValue d = (d.toNat : ℤ) - 48 := rfl
  have hz : toInt (0 * 10) = 0 := rfl
  rw [intValue, List.foldl_cons, List.foldl_nil, hz, Int.zero_add, toInt, hval]
  exact Int.bmod_eq_of_le (by omega) (by omega)

variable {r : UInt64} {b v : QByteArray} {m : HttpMessage}

/-- A word of one class closed by a delimiter. -/
abbrev IsWord (p : UInt8 → Bool) (t : QByteArray) : Prop :=
  (∃ a ∈ t.head?, p a = true) ∧ ∀ a ∈ t.tail, p a = true

theorem isWord_iff {p : UInt8 → Bool} {t : QByteArray} :
    IsWord p t ↔ t ≠ [] ∧ ∀ a ∈ t, p a = true := by
  cases t <;> simp [IsWord]

/-- A state that expects one byte. -/
theorem reads_expect {ι : Type*} {s s' : ParserState} {a : UInt8} {ok : ι → Prop}
    {render : ι → QByteArray} {next : ι → Cursor} (hs : s.inHead = true)
    (hstep : ∀ input, consume (cursorAt s r b v m) input =
      expect a s' (cursorAt s r b v m) input)
    (h : ReadsHead (cursorAt s' r b v m) ok render next) :
    ReadsHead (cursorAt s r b v m) ok (fun i ↦ a :: render i) next := by
  refine h.cons _ a hs ?_ fun c hc ↦ ?_
  · refine scanner_step_of_incomplete ?_
    rw [hstep, expect, if_pos rfl]
    rfl
  · have hrej : consume (cursorAt s r b v m) c = (.invalid, cursorAt s r b v m) := by
      rw [hstep, expect, if_neg hc]
    rw [scanner_step_of_other hrej (by simp) (by simp)]

/-- **A number closed by a delimiter**: the digits are accumulated in an `int` field, which the
first of them sets. -/
theorem reads_number {s next : ParserState} {d : UInt8} (s' : ParserState)
    (set : ℤ → HttpMessage) (hs : s.inHead = true) (hs' : s'.inHead = true)
    (hd : isDigit d = false)
    (hfirst : ∀ a, consume (cursorAt s r b v m) a =
      if isDigit a then (.incomplete, cursorAt s' r b v (set (digitValue a)))
      else (.invalid, cursorAt s r b v m))
    (hloop : ∀ n a, consume (cursorAt s' r b v (set n)) a =
      if a = d then (.incomplete, cursorAt next r b v (set n))
      else if isDigit a then
        (.incomplete, cursorAt s' r b v (set (toInt (toInt (n * 10) + digitValue a))))
      else (.invalid, cursorAt s' r b v (set n))) :
    ReadsHead (cursorAt s r b v m) (IsWord isDigit) (fun t ↦ t ++ [d])
      fun t ↦ cursorAt next r b v (set (intValue t)) := by
  refine reads_word (g := fun t ↦ cursorAt s' r b v (set (intValue t))) hs (fun _ ↦ hs')
    ?_ ?_ ?_ ?_ ?_
  · intro a ha
    refine scanner_step_of_incomplete ?_
    rw [hfirst, if_pos ha, intValue_singleton ha]
  · intro a ha
    simp [scanner, hfirst, ha]
  · intro acc a ha
    have hne : a ≠ d := by rintro rfl; simp [hd] at ha
    refine scanner_step_of_incomplete ?_
    rw [hloop, if_neg hne, if_pos ha, intValue_append_singleton]
  · intro acc
    refine scanner_step_of_incomplete ?_
    rw [hloop, if_pos rfl]
  · intro acc a ha hne
    simp [scanner, hloop, ha, hne]

/-! ### Request lines -/

theorem reads_method :
    ReadsHead (cursorAt .methodStart r b v m) (IsWord isTokenChar) (fun t ↦ t ++ [ascii ' '])
      fun t ↦ cursorAt .uri r b v { m with method := m.method ++ QString.fromLatin1 t } := by
  refine reads_word (g := fun t ↦ cursorAt .method r b v
    { m with method := m.method ++ QString.fromLatin1 t }) rfl (fun _ ↦ rfl) ?_ ?_ ?_ ?_ ?_
  · intro a ha
    simp [scanner, consume, tokenTest_eq, ha, Cursor.transit, QString.pushBack, QString.fromLatin1]
  · intro a ha
    simp [scanner, consume, tokenTest_eq, ha]
  · intro acc a ha
    have hne : a ≠ ascii ' ' := by rintro rfl; exact absurd ha (by decide)
    simp [scanner, consume, tokenTest_eq, hne, ha, QString.pushBack, QString.fromLatin1]
  · intro acc
    rfl
  · intro acc a ha hne
    simp [scanner, consume, tokenTest_eq, hne, ha]

theorem reads_uri :
    ReadsHead (cursorAt .uri r b v m) (fun t ↦ ∀ a ∈ t, (a != ascii ' ' && !isCtl a) = true)
      (fun t ↦ t ++ [ascii ' '])
      fun t ↦ cursorAt .httpVersionH r b v { m with uri := m.uri ++ QString.fromLatin1 t } := by
  have h : ReadsHead _ _ _ _ := reads_block
    (fun t ↦ cursorAt .uri r b v { m with uri := m.uri ++ QString.fromLatin1 t })
    (fun a ↦ a != ascii ' ' && !isCtl a) (ascii ' ')
    (fun t ↦ cursorAt .httpVersionH r b v { m with uri := m.uri ++ QString.fromLatin1 t })
    (fun _ ↦ rfl) ?_ ?_ ?_ []
  · simpa using h
  · intro acc a ha
    simp only [Bool.and_eq_true, bne_iff_ne, Bool.not_eq_true'] at ha
    simp [scanner, consume, ha, QString.pushBack, QString.fromLatin1]
  · intro acc
    rfl
  · intro acc a ha hne
    have hctl : isCtl a = true := by simpa [hne] using ha
    simp [scanner, consume, hne, hctl]

theorem reads_major :
    ReadsHead (cursorAt .httpVersionMajorStart r b v m) (IsWord isDigit)
      (fun t ↦ t ++ [ascii '.'])
      fun t ↦ cursorAt .httpVersionMinorStart r b v { m with majorVersion := intValue t } :=
  reads_number .httpVersionMajor (fun n ↦ { m with majorVersion := n }) rfl rfl
    (by decide) (fun _ ↦ rfl) fun _ _ ↦ rfl

theorem reads_minor :
    ReadsHead (cursorAt .httpVersionMinorStart r b v m) (IsWord isDigit)
      (fun t ↦ t ++ [ascii '\r'])
      fun t ↦ cursorAt .newline1 r b v { m with minorVersion := intValue t } :=
  reads_number .httpVersionMinor (fun n ↦ { m with minorVersion := n }) rfl rfl
    (by decide) (fun _ ↦ rfl) fun _ _ ↦ rfl

theorem reads_lineFeed {s : ParserState} (hs : s.inHead = true)
    (hstep : ∀ input, consume (cursorAt s r b v m) input =
      expect (ascii '\n') .headerLineStart (cursorAt s r b v m) input) :
    ReadsHead (cursorAt s r b v m) (fun _ : Unit ↦ True) (fun _ ↦ [ascii '\n'])
      fun _ ↦ cursorAt .headerLineStart r b v m :=
  reads_expect hs hstep (reads_nil _)

/-- **The request line.** -/
theorem reads_requestLine :
    ReadsHead (cursorAt .methodStart r b v {}) RequestLine.WellFormed RequestLine.render
      fun l ↦ cursorAt .headerLineStart r b v l.message := by
  have hversion (m : HttpMessage) :=
    (reads_major (r := r) (b := b) (v := v) (m := m)).seq fun major _ ↦
      (reads_minor (r := r) (b := b) (v := v)
        (m := { m with majorVersion := intValue major })).seq fun _ _ ↦
          reads_lineFeed rfl fun _ ↦ rfl
  have hslash (m : HttpMessage) :=
    (hversion { m with majorVersion := 0, minorVersion := 0 }).cons
      (cursorAt .httpVersionSlash r b v m) (ascii '/') rfl rfl
      fun c hc ↦ by simp [scanner, consume, hc]
  have hhttp (m : HttpMessage) :=
    reads_expect (s := .httpVersionH) (a := ascii 'H') rfl (fun _ ↦ rfl) <|
    reads_expect (s := .httpVersionT1) (a := ascii 'T') rfl (fun _ ↦ rfl) <|
    reads_expect (s := .httpVersionT2) (a := ascii 'T') rfl (fun _ ↦ rfl) <|
    reads_expect (s := .httpVersionP) (a := ascii 'P') rfl (fun _ ↦ rfl) (hslash m)
  have hline := (reads_method (r := r) (b := b) (v := v) (m := {})).seq fun method _ ↦
    (reads_uri (r := r) (b := b) (v := v)
      (m := { ({} : HttpMessage) with method := [] ++ QString.fromLatin1 method })).seq
        fun uri _ ↦ hhttp
          { ({} : HttpMessage) with
            method := [] ++ QString.fromLatin1 method, uri := [] ++ QString.fromLatin1 uri }
  refine hline.reindex (fun p ↦ ⟨p.1, p.2.1, p.2.2.1, p.2.2.2.1⟩) ?_ ?_ ?_ fun _ _ ↦ rfl
  · rintro ⟨method, uri, major, minor, _⟩ ⟨hmethod, huri, hmajor, hminor, -⟩
    obtain ⟨h₁, h₂⟩ := isWord_iff.1 hmethod
    obtain ⟨h₃, h₄⟩ := isWord_iff.1 hmajor
    obtain ⟨h₅, h₆⟩ := isWord_iff.1 hminor
    exact ⟨h₁, h₂, huri, h₃, h₄, h₅, h₆⟩
  · rintro ⟨method, uri, major, minor⟩ ⟨h₁, h₂, huri, h₃, h₄, h₅, h₆⟩
    exact ⟨(method, uri, major, minor, ()), ⟨isWord_iff.2 ⟨h₁, h₂⟩, huri, isWord_iff.2 ⟨h₃, h₄⟩,
      isWord_iff.2 ⟨h₅, h₆⟩, trivial⟩, rfl⟩
  · rintro ⟨method, uri, major, minor, _⟩
    simp [RequestLine.render, asciiBytes, crlf]

/-! ### Status lines -/

theorem reads_responseMajor :
    ReadsHead (cursorAt .responseMajorVersionStart r b v m) (IsWord isDigit)
      (fun t ↦ t ++ [ascii '.'])
      fun t ↦ cursorAt .responseMinorVersionStart r b v { m with majorVersion := intValue t } :=
  reads_number .responseMajorVersion (fun n ↦ { m with majorVersion := n }) rfl rfl
    (by decide) (fun _ ↦ rfl) fun _ _ ↦ rfl

theorem reads_responseMinor :
    ReadsHead (cursorAt .responseMinorVersionStart r b v m) (IsWord isDigit)
      (fun t ↦ t ++ [ascii ' '])
      fun t ↦ cursorAt .responseStatusCodeStart r b v { m with minorVersion := intValue t } :=
  reads_number .responseMinorVersion (fun n ↦ { m with minorVersion := n }) rfl rfl
    (by decide) (fun _ ↦ rfl) fun _ _ ↦ rfl

theorem reads_statusCode :
    ReadsHead (cursorAt .responseStatusCodeStart r b v m) (IsWord isDigit)
      (fun t ↦ t ++ [ascii ' '])
      fun t ↦ cursorAt .responseStatusMessageStart r b v { m with statusCode := intValue t } :=
  reads_number .responseStatusCode (fun n ↦ { m with statusCode := n }) rfl rfl
    (by decide) (fun _ ↦ rfl) fun _ _ ↦ rfl

/-- The reason phrase: any ASCII byte first, then everything up to a carriage return. -/
theorem reads_reason :
    ReadsHead (cursorAt .responseStatusMessageStart r b v m)
      (fun t ↦ (∃ a ∈ t.head?, isChar a = true) ∧
        ∀ a ∈ t.tail, (isChar a && a != ascii '\r') = true)
      (fun t ↦ t ++ [ascii '\r'])
      fun t ↦ cursorAt .responseNewline r t v
        { m with statusMessage := QString.fromUtf8 t } := by
  refine reads_word (g := fun t ↦ cursorAt .responseStatusMessage r t v m) rfl (fun _ ↦ rfl)
    ?_ ?_ ?_ ?_ ?_
  · intro a ha
    simp [scanner, consume, ha, Cursor.transit]
  · intro a ha
    simp [scanner, consume, ha]
  · intro acc a ha
    simp only [Bool.and_eq_true, bne_iff_ne] at ha
    simp [scanner, consume, ha]
  · intro acc
    rfl
  · intro acc a ha hne
    have hchar : isChar a = false := by simpa [hne] using ha
    have hsp : a ≠ ascii ' ' := by rintro rfl; exact absurd hchar (by decide)
    simp [scanner, consume, hne, hchar, hsp]

/-- The version and the status code, up to the space after it. -/
theorem reads_statusNumbers :
    ReadsHead (cursorAt .responseStart r b v {})
      (fun n : QByteArray × QByteArray × QByteArray ↦
        IsWord isDigit n.1 ∧ IsWord isDigit n.2.1 ∧ IsWord isDigit n.2.2)
      (fun n ↦ asciiBytes "HTTP/" ++
        (n.1 ++ ascii '.' :: (n.2.1 ++ ascii ' ' :: (n.2.2 ++ [ascii ' ']))))
      fun n ↦ cursorAt .responseStatusMessageStart r b v
        { majorVersion := intValue n.1, minorVersion := intValue n.2.1,
          statusCode := intValue n.2.2 } := by
  have hnumbers := (reads_responseMajor (r := r) (b := b) (v := v) (m := {})).seq fun major _ ↦
    (reads_responseMinor (r := r) (b := b) (v := v)
      (m := { ({} : HttpMessage) with majorVersion := intValue major })).seq fun minor _ ↦
    reads_statusCode (r := r) (b := b) (v := v)
      (m := { ({} : HttpMessage) with
        majorVersion := intValue major, minorVersion := intValue minor })
  have hhttp :=
    reads_expect (s := .responseStart) (a := ascii 'H') rfl (fun _ ↦ rfl) <|
    reads_expect (s := .responseHttpT1) (a := ascii 'T') rfl (fun _ ↦ rfl) <|
    reads_expect (s := .responseHttpT2) (a := ascii 'T') rfl (fun _ ↦ rfl) <|
    reads_expect (s := .responseHttpP) (a := ascii 'P') rfl (fun _ ↦ rfl) <|
    reads_expect (s := .responseHttpSlash) (a := ascii '/') rfl (fun _ ↦ rfl) hnumbers
  refine hhttp.reindex id (fun _ hn ↦ hn) (fun n hn ↦ ⟨n, hn, rfl⟩) (fun _ ↦ ?_) fun _ _ ↦ rfl
  simp [asciiBytes]

/-- **The status line.** -/
theorem reads_statusLine :
    ReadsHead (cursorAt .responseStart r b v {}) StatusLine.WellFormed StatusLine.render
      fun l ↦ cursorAt .headerLineStart r l.reason v l.message := by
  have hline := (reads_statusNumbers (r := r) (b := b) (v := v)).seq fun n _ ↦
    (reads_reason (r := r) (b := b) (v := v)
      (m := { ({} : HttpMessage) with
        majorVersion := intValue n.1, minorVersion := intValue n.2.1,
        statusCode := intValue n.2.2 })).seq fun _ _ ↦ reads_lineFeed rfl fun _ ↦ rfl
  refine hline.reindex (fun p ↦ ⟨p.1.1, p.1.2.1, p.1.2.2, p.2.1⟩) ?_ ?_ ?_ fun _ _ ↦ rfl
  · rintro ⟨⟨major, minor, status⟩, reason, _⟩ ⟨⟨hmajor, hminor, hstatus⟩, hreason, -⟩
    obtain ⟨h₁, h₂⟩ := isWord_iff.1 hmajor
    obtain ⟨h₃, h₄⟩ := isWord_iff.1 hminor
    obtain ⟨h₅, h₆⟩ := isWord_iff.1 hstatus
    obtain ⟨⟨a, ha, hchar⟩, htail⟩ := hreason
    obtain ⟨reason, rfl⟩ : ∃ t, reason = a :: t := ⟨reason.tail, (List.cons_head?_tail ha).symm⟩
    simp only [List.tail_cons, Bool.and_eq_true, bne_iff_ne] at htail
    exact ⟨h₁, h₂, h₃, h₄, h₅, h₆, by simp, by simpa [hchar] using fun b hb ↦ (htail b hb).1,
      fun b hb ↦ (htail b hb).2⟩
  · rintro ⟨major, minor, status, reason⟩ ⟨h₁, h₂, h₃, h₄, h₅, h₆, hne, hchar, htail⟩
    refine ⟨((major, minor, status), reason, ()), ⟨⟨isWord_iff.2 ⟨h₁, h₂⟩, isWord_iff.2 ⟨h₃, h₄⟩,
      isWord_iff.2 ⟨h₅, h₆⟩⟩, ⟨?_, fun b hb ↦ ?_⟩, trivial⟩, rfl⟩
    · obtain ⟨a, t, rfl⟩ := List.exists_cons_of_ne_nil hne
      exact ⟨a, rfl, hchar a List.mem_cons_self⟩
    · rw [Bool.and_eq_true, bne_iff_ne]
      exact ⟨hchar b (List.mem_of_mem_tail hb), htail b hb⟩
  · rintro ⟨⟨major, minor, status⟩, reason, _⟩
    simp [StatusLine.render, asciiBytes, crlf]

/-! ### Header lines -/

theorem reads_value :
    ReadsHead (cursorAt .headerValue r b v m) (fun t ↦ ∀ a ∈ t, (!isCtl a) = true)
      (fun t ↦ t ++ [ascii '\r'])
      fun t ↦ cursorAt .newline2 r [] []
        { m with
          headers := m.headers.insert (QString.fromLatin1 b) (QString.fromLatin1 (v ++ t)) } := by
  refine reads_block (fun t ↦ cursorAt .headerValue r b t m) (fun a ↦ !isCtl a) (ascii '\r')
    (fun t ↦ cursorAt .newline2 r [] []
      { m with
        headers := m.headers.insert (QString.fromLatin1 b) (QString.fromLatin1 t) })
    (fun _ ↦ rfl) ?_ ?_ ?_ v
  · intro acc a ha
    have hne : a ≠ ascii '\r' := by rintro rfl; exact absurd ha (by decide)
    have hctl : isCtl a = false := by simpa using ha
    simp [scanner, consume, hne, hctl]
  · intro acc
    rfl
  · intro acc a ha hne
    have hctl : isCtl a = true := by simpa using ha
    simp [scanner, consume, hne, hctl]

/-- The rest of a field line, after the first character of its name. -/
theorem reads_field (a : UInt8) :
    ReadsHead (cursorAt .headerName r [a] v m)
      (fun p : QByteArray × QByteArray × Unit ↦ (∀ c ∈ p.1, isTokenChar c = true) ∧
        (∀ c ∈ p.2.1, (!isCtl c) = true) ∧ True)
      (fun p ↦ p.1 ++ [ascii ':'] ++ ascii ' ' :: (p.2.1 ++ [ascii '\r'] ++ [ascii '\n']))
      fun p ↦ cursorAt .headerLineStart r [] []
        { m with headers := (HeaderLine.field (a :: p.1) p.2.1).store m.headers } := by
  have hname : ReadsHead _ _ _ _ := reads_block (fun t ↦ cursorAt .headerName r t v m)
    isTokenChar (ascii ':') (fun t ↦ cursorAt .headerSpace r t v m) (fun _ ↦ rfl) ?_ ?_ ?_ [a]
  · have h := hname.seq fun name _ ↦
      ((reads_value (r := r) (b := [a] ++ name) (v := []) (m := m)).seq fun _ _ ↦
        reads_lineFeed rfl fun _ ↦ rfl).cons (cursorAt .headerSpace r ([a] ++ name) v m)
          (ascii ' ') rfl rfl fun c hc ↦ by simp [scanner, consume, hc]
    refine h.reindex id (fun _ hi ↦ hi) (fun k hk ↦ ⟨k, hk, rfl⟩) (fun _ ↦ ?_) fun _ _ ↦ rfl
    simp
  · intro acc c hc
    have hne : c ≠ ascii ':' := by rintro rfl; exact absurd hc (by decide)
    simp [scanner, consume, tokenTest_eq, hne, hc]
  · intro acc
    rfl
  · intro acc c hc hne
    simp [scanner, consume, tokenTest_eq, hne, hc]

theorem scanner_step_headerLws_blank {a : UInt8} (ha : HeaderLine.isBlank a = true) :
    scanner.step (cursorAt .headerLws r b v m) a = (none, cursorAt .headerLws r b v m) := by
  have hne : a ≠ ascii '\r' := by rintro rfl; exact absurd ha (by decide)
  have hor : a = ascii ' ' ∨ a = ascii '\t' := by simpa [HeaderLine.isBlank] using ha
  refine scanner_step_of_incomplete ?_
  simp [consume, hne, hor]

theorem scanner_step_headerLws_other {a : UInt8} (hblank : HeaderLine.isBlank a = false)
    (hctl : isCtl a = false) :
    scanner.step (cursorAt .headerLws r b v m) a = (none, cursorAt .headerValue r b v m) := by
  have hne : a ≠ ascii '\r' := by rintro rfl; exact absurd hctl (by decide)
  have hor : a ≠ ascii ' ' ∧ a ≠ ascii '\t' := by simpa [HeaderLine.isBlank] using hblank
  refine scanner_step_of_incomplete ?_
  simp [consume, hne, hor, hctl]
  rfl

/-- **The rest of a continuation line**, after the first blank. What follows the blanks is not
added to any field: its first character is dropped and the rest stored under the empty name. -/
theorem reads_continuation (i : UInt8) :
    ReadsHead (cursorAt .headerLws r [] [] m)
      (fun p : QByteArray × QByteArray ↦ (∀ c ∈ p.1, HeaderLine.isBlank c = true) ∧
        (∀ c ∈ p.2.head?, HeaderLine.isBlank c = false) ∧ ∀ c ∈ p.2, (!isCtl c) = true)
      (fun p ↦ p.1 ++ (p.2 ++ crlf))
      fun p ↦ cursorAt .headerLineStart r [] []
        { m with headers := (HeaderLine.continuation (i :: p.1) p.2).store m.headers } := by
  have hloop : ∀ (acc : QByteArray) a, HeaderLine.isBlank a = true →
      scanner.step (cursorAt .headerLws r [] [] m) a =
        (none, cursorAt .headerLws r [] [] m) := fun _ _ ha ↦ scanner_step_headerLws_blank ha
  have hcr : scanner.step (cursorAt .headerLws r [] [] m) (ascii '\r') =
      (none, cursorAt .newline2 r [] [] m) := rfl
  have hnewline := reads_lineFeed (s := .newline2) (r := r) (b := []) (v := []) (m := m) rfl
    fun _ ↦ rfl
  have hvalue := (reads_value (r := r) (b := []) (v := []) (m := m)).seq fun _ _ ↦
    reads_lineFeed rfl fun _ ↦ rfl
  constructor
  · intro as
    obtain ⟨-, h⟩ | ⟨t, a, rest, rfl, ht, ha, h⟩ :=
      scanner.scan_takeWhile (g := fun _ ↦ cursorAt .headerLws r [] [] m) hloop [] as
    · rw [h]
      exact Or.inl (Or.inr ⟨rfl, rfl⟩)
    · rw [h]
      by_cases hcr' : a = ascii '\r'
      · subst hcr'
        rw [scanner.scan_cons_of_none hcr]
        refine (hnewline.sound rest).imp_right fun ⟨_, _, rest', heq⟩ ↦ ?_
        exact ⟨(t, []), ⟨ht, by simp, by simp⟩, rest', by simp [heq, crlf]⟩
      · by_cases hctl : isCtl a = true
        · refine Or.inl (stuck_of_reject ?_ rest)
          have hor : a ≠ ascii ' ' ∧ a ≠ ascii '\t' := by simpa [HeaderLine.isBlank] using ha
          simp [scanner, consume, hcr', hor, hctl]
        · have hctl' : isCtl a = false := by simpa using hctl
          rw [scanner.scan_cons_of_none (scanner_step_headerLws_other ha hctl')]
          refine (hvalue.sound rest).imp_right ?_
          rintro ⟨⟨value, _⟩, ⟨hv, -⟩, rest', rfl⟩
          refine ⟨(t, a :: value), ⟨ht, by simpa using ha, ?_⟩, rest', by simp [crlf]⟩
          simpa [hctl'] using hv
  · rintro ⟨t, content⟩ ⟨ht, hhead, hctl⟩ rest
    rw [List.append_assoc, scanner.scan_collect (g := fun _ ↦ cursorAt .headerLws r [] [] m)
      hloop t ht [], List.append_assoc]
    rcases content with - | ⟨a, value⟩
    · rw [List.nil_append, crlf, List.cons_append, scanner.scan_cons_of_none hcr]
      exact hnewline.complete () trivial rest
    · have ha : HeaderLine.isBlank a = false := hhead a rfl
      have hctl' : isCtl a = false := by simpa using hctl a List.mem_cons_self
      rw [List.cons_append, scanner.scan_cons_of_none (scanner_step_headerLws_other ha hctl')]
      have h := hvalue.complete (value, ())
        ⟨fun c hc ↦ hctl c (List.mem_cons_of_mem a hc), trivial⟩ rest
      simpa [crlf, HeaderLine.store] using h

/-- What the header lines so far have stored. The buffers are empty once a field has been
stored. -/
structure LineState where
  headers : Headers
  buffer : QByteArray
  clean : headers.empty = false → buffer = []

/-- The next line is stored. -/
def LineState.store (k : LineState) : HeaderLine → LineState
  | .continuation _ [] => k
  | l => ⟨l.store k.headers, [], fun _ ↦ rfl⟩

theorem LineState.headers_store (k : LineState) (l : HeaderLine) :
    (k.store l).headers = l.store k.headers := by
  rcases l with ⟨_, _⟩ | ⟨_, _ | ⟨_, _⟩⟩ <;> rfl

theorem LineState.headers_foldl (ls : List HeaderLine) (k : LineState) :
    (ls.foldl LineState.store k).headers = ls.foldl HeaderLine.store k.headers := by
  induction ls generalizing k with
  | nil => rfl
  | cons l ls ih => rw [List.foldl_cons, List.foldl_cons, ih, headers_store]

theorem linesOk_iff (ls : List HeaderLine) (k : LineState) :
    LinesOk (fun k l ↦ l.WellFormed k.headers) LineState.store k ls ↔
      LinesWellFormed k.headers ls := by
  induction ls generalizing k with
  | nil => exact Iff.rfl
  | cons l ls ih => rw [LinesOk, LinesWellFormed, ih, LineState.headers_store]

/-- At the start of a header line. -/
abbrev atLine (r : UInt64) (m : HttpMessage) (k : LineState) : Cursor :=
  cursorAt .headerLineStart r k.buffer [] { m with headers := k.headers }

/-- A carriage return at the start of a line. -/
theorem scanner_step_atLine_cr (k : LineState) :
    scanner.step (atLine r m k) (ascii '\r') =
      (none, cursorAt .newline3 r k.buffer [] { m with headers := k.headers }) :=
  rfl

/-- A blank at the start of a line, once there is a field. -/
theorem scanner_step_atLine_blank {k : LineState} (hk : k.headers.empty = false) {a : UInt8}
    (ha : HeaderLine.isBlank a = true) :
    scanner.step (atLine r m k) a =
      (none, cursorAt .headerLws r [] [] { m with headers := k.headers }) := by
  have hne : a ≠ ascii '\r' := by rintro rfl; exact absurd ha (by decide)
  have hor : a = ascii ' ' ∨ a = ascii '\t' := by simpa [HeaderLine.isBlank] using ha
  refine scanner_step_of_incomplete ?_
  simp [consume, hne, hor, hk, k.clean hk, Cursor.transit]

/-- A token character at the start of a line. -/
theorem scanner_step_atLine_token (k : LineState) {a : UInt8} (ha : isTokenChar a = true) :
    scanner.step (atLine r m k) a =
      (none, cursorAt .headerName r [a] [] { m with headers := k.headers }) := by
  have hne : a ≠ ascii '\r' := by rintro rfl; exact absurd ha (by decide)
  have hsp : a ≠ ascii ' ' := by rintro rfl; exact absurd ha (by decide)
  have htab : a ≠ ascii '\t' := by rintro rfl; exact absurd ha (by decide)
  refine scanner_step_of_incomplete ?_
  simp [consume, hne, hsp, htab, tokenTest_eq, ha, Cursor.transit]

/-- Nothing else starts a line. -/
theorem scanner_step_atLine_reject {k : LineState} {a : UInt8} (hcr : a ≠ ascii '\r')
    (hblank : k.headers.empty = true ∨ HeaderLine.isBlank a = false)
    (ha : isTokenChar a = false) : (scanner.step (atLine r m k) a).1 = some .invalid := by
  have hor : (!k.headers.empty && HeaderLine.isBlank a) = false := by
    rcases hblank with h | h <;> simp [h]
  have hrej : consume (atLine r m k) a = (.invalid, atLine r m k) := by
    rw [consume]
    simp only [tokenTest_eq, ha, hcr, if_false]
    rw [HeaderLine.isBlank] at hor
    simp only [hor, Bool.not_false, if_true, Bool.false_eq_true, if_false]
  rw [scanner_step_of_other hrej (by simp) (by simp)]

/-- **The header section** up to the carriage return of its empty line. -/
theorem reads_headerLines (k : LineState) :
    ReadsHead (atLine r m k) (LinesWellFormed k.headers)
      (fun ls ↦ ls.flatMap HeaderLine.render ++ [ascii '\r'])
      fun ls ↦ cursorAt .newline3 r (ls.foldl LineState.store k).buffer []
        { m with headers := ls.foldl HeaderLine.store k.headers } := by
  have h : Parses scanner InHead .invalid _ _ _ _ := parses_lines (atLine r m)
    (fun k l ↦ l.WellFormed k.headers) LineState.store HeaderLine.render
    (fun _ _ ↦ True) (fun _ : Unit ↦ [ascii '\r'])
    (fun k _ ↦ scanner.scan (cursorAt .newline3 r k.buffer [] { m with headers := k.headers }))
    ?_ ?_ ?_ ?_ k
  · refine h.reindex Prod.fst (fun ls hls ↦ (linesOk_iff ls.1 k).1 hls.1)
      (fun ls hls ↦ ⟨(ls, ()), ⟨(linesOk_iff ls k).2 hls, trivial⟩, rfl⟩) (fun _ ↦ rfl)
      fun ls _ ↦ ?_
    simp only [LineState.headers_foldl]
  · intro k as
    rcases as with - | ⟨a, as⟩
    · exact Or.inl (stuck_nil rfl)
    by_cases hcr : a = ascii '\r'
    · exact Or.inr (Or.inl ⟨(), trivial, as, by simp [hcr]⟩)
    by_cases hblank : k.headers.empty = false ∧ HeaderLine.isBlank a = true
    · rw [scanner.scan_cons_of_none (scanner_step_atLine_blank hblank.1 hblank.2)]
      refine ((reads_continuation a).sound as).imp_right fun h ↦ Or.inr ?_
      obtain ⟨⟨t, content⟩, ⟨ht, hhead, hctl⟩, rest, rfl⟩ := h
      refine ⟨.continuation (a :: t) content, ⟨hblank.1, by simp, ?_, hhead, hctl⟩, rest, rfl⟩
      simpa [hblank.2] using ht
    by_cases ha : isTokenChar a = true
    · rw [scanner.scan_cons_of_none (scanner_step_atLine_token k ha)]
      refine ((reads_field a).sound as).imp_right fun h ↦ Or.inr ?_
      obtain ⟨⟨name, value, _⟩, ⟨hname, hvalue, -⟩, rest, rfl⟩ := h
      refine ⟨.field (a :: name) value, ⟨by simp, by simpa [ha] using hname, hvalue⟩, rest, ?_⟩
      simp [HeaderLine.render, crlf]
    · refine Or.inl (stuck_of_reject (scanner_step_atLine_reject hcr ?_ (by simpa using ha)) as)
      rw [not_and_or] at hblank
      simpa using hblank
  · intro k _ _ rest
    rw [List.singleton_append, scanner.scan_cons_of_none (scanner_step_atLine_cr k)]
  · rintro k (⟨name, value⟩ | ⟨indent, content⟩) hl rest
    · obtain ⟨hne, hname, hvalue⟩ := hl
      obtain ⟨a, name, rfl⟩ := List.exists_cons_of_ne_nil hne
      have h := (reads_field (r := r) (v := []) (m := { m with headers := k.headers }) a).complete
        (name, value, ()) ⟨fun c hc ↦ hname c (List.mem_cons_of_mem a hc), hvalue, trivial⟩ rest
      rw [HeaderLine.render, List.cons_append, List.cons_append,
        scanner.scan_cons_of_none (scanner_step_atLine_token k (hname a List.mem_cons_self))]
      simpa [crlf, LineState.store] using h
    · obtain ⟨hk, hne, hindent, hhead, hctl⟩ := hl
      obtain ⟨a, indent, rfl⟩ := List.exists_cons_of_ne_nil hne
      have h := (reads_continuation (r := r) (m := { m with headers := k.headers }) a).complete
        (indent, content) ⟨fun c hc ↦ hindent c (List.mem_cons_of_mem a hc), hhead, hctl⟩ rest
      rw [HeaderLine.render, List.cons_append, List.cons_append,
        scanner.scan_cons_of_none (scanner_step_atLine_blank hk (hindent a List.mem_cons_self)), h]
      rcases content with - | ⟨c, content⟩
      · rw [atLine, LineState.store, k.clean hk]
        rfl
      · rfl
  · rintro - (⟨name, value⟩ | ⟨indent, content⟩) -
    · simp [HeaderLine.render]
    · simp [HeaderLine.render, crlf]

/-! ### Whole heads -/

/-- What the start line leaves in the name buffer: a reason phrase stays there until the first
field. -/
def StartLine.lineState : StartLine → LineState
  | .request _ => ⟨{}, [], fun _ ↦ rfl⟩
  | .status l => ⟨{}, l.reason, fun h ↦ absurd h (by decide)⟩

namespace Head

/-- The name buffer at the end of the head. -/
def buffer (h : Head) : QByteArray := (h.lines.foldl LineState.store h.start.lineState).buffer

/-- The parser at the line feed that ends the head. -/
def atEnd (h : Head) : Cursor := cursorAt .newline3 0 h.buffer [] h.message

@[simp] theorem message_headers (h : Head) : h.message.headers = h.headers := rfl

@[simp] theorem message_body (h : Head) : h.message.body = [] := by
  rcases h with ⟨_ | _, _⟩ <;> rfl

/-- The body of a head's message is empty already. -/
theorem message_eq_with_body_nil (h : Head) : h.message = { h.message with body := [] } := by
  rcases h with ⟨_ | _, _⟩ <;> rfl

end Head

theorem StartLine.headers_lineState (l : StartLine) : l.lineState.headers = {} := by
  cases l <;> rfl

/-- The start line of either mode. -/
theorem reads_startLine (mode : Mode) (p : HttpMessageParser) :
    ReadsHead (Cursor.start mode p).forget (StartLine.WellFormed mode) StartLine.render
      fun l ↦ atLine 0 l.message l.lineState := by
  cases mode with
  | request =>
    refine (reads_requestLine (r := 0) (b := []) (v := [])).reindex .request
      (fun l hl ↦ ⟨rfl, hl⟩) ?_ (fun _ ↦ rfl) fun _ _ ↦ rfl
    rintro (l | l) hl
    · exact ⟨l, hl.2, rfl⟩
    · exact absurd hl.1 (by simp)
  | response =>
    refine (reads_statusLine (r := 0) (b := []) (v := [])).reindex .status
      (fun l hl ↦ ⟨rfl, hl⟩) ?_ (fun _ ↦ rfl) fun _ _ ↦ rfl
    rintro (l | l) hl
    · exact absurd hl.1 (by simp)
    · exact ⟨l, hl.2, rfl⟩

/-- **The head.** -/
theorem reads_head (mode : Mode) (p : HttpMessageParser) :
    ReadsHead (Cursor.start mode p).forget (Head.WellFormed mode) Head.renderInit Head.atEnd := by
  have h := (reads_startLine mode p).seq fun l _ ↦
    reads_headerLines (r := 0) (m := l.message) l.lineState
  refine h.reindex (fun p ↦ ⟨p.1, p.2⟩) ?_ ?_ (fun _ ↦ rfl) ?_
  · rintro ⟨l, ls⟩ ⟨hl, hls⟩
    exact ⟨hl, l.headers_lineState ▸ hls⟩
  · rintro ⟨l, ls⟩ ⟨hl, hls⟩
    exact ⟨(l, ls), ⟨hl, l.headers_lineState.symm ▸ hls⟩, rfl⟩
  · rintro ⟨l, ls⟩ -
    simp only [Head.atEnd, Head.buffer, Head.message, Head.headers, l.headers_lineState]

/-- The line feed that ends a head. -/
theorem consume_atEnd (h : Head) :
    consume h.atEnd (ascii '\n') =
      match framing h.headers with
      | .chunked => (.incomplete, cursorAt .chunkLengthStart 0 h.buffer [] h.message)
      | .fixed length => (.incomplete, cursorAt .fixedLengthEntity length h.buffer [] h.message)
      | .none => (.valid, h.atEnd)
      | .malformed => (.invalid, h.atEnd) := by
  have hstep : consume h.atEnd (ascii '\n') = h.atEnd.endHeaders := rfl
  rw [hstep, endHeaders_eq, show h.atEnd.message.headers = h.headers from rfl]
  rcases h with ⟨_ | _, _⟩ <;> rfl

/-- **What the parser does after a head** depends on the framing alone. -/
theorem scan_head {mode : Mode} {h : Head} (hwf : h.WellFormed mode) (p : HttpMessageParser)
    (rest : QByteArray) :
    scanner.scan (Cursor.start mode p).forget (h.render ++ rest) =
      match framing h.headers with
      | .chunked => scanner.scan (cursorAt .chunkLengthStart 0 h.buffer [] h.message) rest
      | .fixed length =>
        scanner.scan (cursorAt .fixedLengthEntity length h.buffer [] h.message) rest
      | .none => ⟨some .valid, h.atEnd, rest⟩
      | .malformed => ⟨some .invalid, h.atEnd, rest⟩ := by
  have hstep := consume_atEnd h
  rw [Head.render, List.append_assoc, (reads_head mode p).complete h hwf, List.singleton_append]
  cases hf : framing h.headers with
  | chunked =>
    simp only [hf] at hstep
    rw [scanner.scan_cons_of_none (scanner_step_of_incomplete hstep)]
  | fixed length =>
    simp only [hf] at hstep
    rw [scanner.scan_cons_of_none (scanner_step_of_incomplete hstep)]
  | none =>
    simp only [hf] at hstep
    rw [scanner.scan_cons_of_some (scanner_step_of_valid hstep)]
    rfl
  | malformed =>
    simp only [hf] at hstep
    rw [scanner.scan_cons_of_some (scanner_step_of_other hstep (by simp) (by simp))]

/-- **What gets past the head has read one.** -/
theorem exists_head_of_not_stuck {mode : Mode} {p : HttpMessageParser} {stream : QByteArray}
    (hns : ¬ Stuck InHead .invalid (scanner.scan (Cursor.start mode p).forget stream)) :
    ∃ h : Head, h.WellFormed mode ∧ ∃ rest, stream = h.render ++ rest := by
  obtain ⟨h, hwf, rest, rfl, heq⟩ := (reads_head mode p).exists_of_not_stuck hns
  rw [heq] at hns
  rcases rest with - | ⟨a, rest⟩
  · have hend : InHead h.atEnd := rfl
    exact absurd (stuck_nil hend) hns
  · by_cases ha : a = ascii '\n'
    · exact ⟨h, hwf, rest, by simp [Head.render, ha]⟩
    · refine absurd (stuck_of_reject ?_ rest) hns
      simp [scanner, consume, Head.atEnd, ha]

end HttpMessageParser

end Amanuensis
