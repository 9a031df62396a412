import Amanuensis.Foundation.Lines
import Amanuensis.Http.Forwarding

/-!
# No line is injected into a forwarded head

Every character that enters a stored field has passed a test that control characters fail, and
neither the canonical spelling of a name, nor the joining of values, nor `toLatin1` makes one. So
the line breaks of a forwarded head are those `Request::format` writes, and its lines are the
request line and one line for each header name (`nothingInjected`).
-/

namespace Amanuensis

/-- A code from 0 to 31, or 127. -/
def QChar.isControl (c : QChar) : Bool := c.toNat ≤ 31 ∨ c.toNat = 127

/-- A character read from a byte is a control character when the byte is. -/
theorem QChar.isControl_toUInt16 (b : UInt8) : isControl b.toUInt16 = isCtl b := by
  rw [isControl, isCtl, UInt8.toNat_toUInt16]

namespace QString

/-- A string without control characters. -/
def NoControl (s : QString) : Prop := ∀ c ∈ s, c.isControl = false

theorem NoControl.intercalate {sep : QString} {l : List QString} (hsep : NoControl sep)
    (hl : ∀ s ∈ l, NoControl s) : NoControl (sep.intercalate l) :=
  forall_mem_intercalate hsep hl

theorem Latin1Of.noControl {p : UInt8 → Bool} {s : QString} (hs : Latin1Of p s)
    (hp : ∀ b, p b = true → isCtl b = false) : NoControl s := by
  intro c hc
  obtain ⟨b, hb, rfl⟩ := hs c hc
  rw [QChar.isControl_toUInt16, hp b hb]

/-- **No conversion makes a control character**: `toLatin1` keeps the others below `U+0100` and
writes `?` for the rest. -/
theorem NoControl.notMem_toLatin1 {s : QString} (hs : NoControl s) {b : UInt8}
    (hb : isCtl b = true) : b ∉ s.toLatin1 := by
  intro hmem
  obtain ⟨c, hc, hcb⟩ := List.mem_map.1 hmem
  rw [QChar.toLatin1] at hcb
  split_ifs at hcb with hle
  · have hback : c.toUInt8.toUInt16 = c := by
      refine UInt16.toNat_inj.1 ?_
      rw [UInt8.toNat_toUInt16, UInt16.toNat_toUInt8]
      omega
    have hctl : c.isControl = true := by
      rw [← hback, hcb, QChar.isControl_toUInt16, hb]
    exact absurd hctl (by simp [hs c hc])
  · rw [← hcb] at hb
    exact absurd hb (by decide)

end QString

namespace HttpMessageParser

open Lines QString

/-! ### The lines of a formatted request -/

/-- The first line `Request::format` writes. -/
def requestLine (m : HttpMessage) : QByteArray :=
  (m.method ++ ofString " " ++ m.uri ++ ofString " HTTP/" ++ number m.majorVersion ++
    ofString "." ++ number m.minorVersion).toLatin1

/-- The line `Request::format` writes for a header name. -/
def headerLine (h : Headers) (name : QString) : QByteArray :=
  (name ++ ofString ": " ++ h.joined name).toLatin1

/-- The lines of the head. -/
def formattedLines (m : HttpMessage) : List QByteArray :=
  requestLine m :: m.headers.names.map (headerLine m.headers)

/-- The output of `Request::format`: lines, an empty line, and the body. -/
theorem format_eq_lines (m : HttpMessage) :
    Request.format m = (formattedLines m).flatMap (· ++ [ascii '\r', ascii '\n']) ++
      ascii '\r' :: ascii '\n' :: (if m.body.length > 0 then fromUtf8 m.body else []).toLatin1 := by
  simp only [Request.format, formattedLines, requestLine, headerLine, Headers.joined,
    toLatin1_append, toLatin1_flatMap, toLatin1_ofString, List.flatMap_cons, List.flatMap_map,
    List.append_assoc]
  rfl

/-- No control character is stored in the method, in the URI or in a header. -/
structure NoControls (m : HttpMessage) : Prop where
  method : NoControl m.method
  uri : NoControl m.uri
  names : ∀ name ∈ m.headers.names, NoControl name
  entries : ∀ entry ∈ m.headers.values, NoControl entry.1 ∧ NoControl entry.2

/-- The values of a name are joined to a string without control characters. -/
theorem NoControls.joined {m : HttpMessage} (hm : NoControls m) (name : QString) :
    NoControl (m.headers.joined name) := by
  have hsep : NoControl (fromLatin1 [ascii ',', ascii ' ']) :=
    (latin1Of_fromLatin1 (p := fun b ↦ !isCtl b) (by decide)).noControl fun b hb ↦ by simpa using hb
  refine NoControl.intercalate hsep fun value hvalue ↦ ?_
  obtain ⟨entry, hentry, rfl⟩ := List.mem_map.1 hvalue
  exact (hm.entries entry (List.mem_of_mem_filter hentry)).2

/-- The lines hold no carriage return. -/
theorem NoControls.notMem_formattedLines {m : HttpMessage} (hm : NoControls m) :
    ∀ l ∈ formattedLines m, ascii '\r' ∉ l := by
  have hline {s : QString} (hs : NoControl s) : ascii '\r' ∉ s.toLatin1 :=
    hs.notMem_toLatin1 (by decide)
  have hnumber (i : ℤ) : ascii '\r' ∉ (number i).toLatin1 :=
    notMem_toLatin1_number (by decide) (by decide) i
  refine List.forall_mem_cons.2 ⟨?_, List.forall_mem_map.2 fun name hname ↦ ?_⟩
  · simp only [requestLine, toLatin1_append, List.mem_append, not_or]
    exact ⟨⟨⟨⟨⟨⟨hline hm.method, by decide⟩, hline hm.uri⟩, by decide⟩, hnumber _⟩, by decide⟩,
      hnumber _⟩
  · simp only [headerLine, toLatin1_append, List.mem_append, not_or]
    exact ⟨⟨hline (hm.names name hname), by decide⟩, hline (hm.joined name)⟩

/-- No line of a head is empty. -/
theorem ne_nil_of_mem_formattedLines (m : HttpMessage) : ∀ l ∈ formattedLines m, l ≠ [] := by
  refine List.forall_mem_cons.2 ⟨?_, List.forall_mem_map.2 fun name _ ↦ ?_⟩
  · simp [requestLine]
  · simp [headerLine]

/-- **A message without control characters is formatted as its lines**, and an empty one. -/
theorem NoControls.linesOfHead_format {m : HttpMessage} (hm : NoControls m) :
    linesOfHead (ascii '\r') (ascii '\n') (Request.format m) = formattedLines m := by
  rw [format_eq_lines]
  exact linesOfHead_eq hm.notMem_formattedLines (ne_nil_of_mem_formattedLines m) _

theorem NoControls.nil_mem_splitLines_format {m : HttpMessage} (hm : NoControls m) :
    [] ∈ splitLines (ascii '\r') (ascii '\n') (Request.format m) := by
  rw [format_eq_lines, splitLines_head hm.notMem_formattedLines]
  simp

/-! ### Accepted requests -/

/-- **Nothing is injected**: no control character is stored, and up to the first empty line the
forwarded bytes are the request line and one line for each header name, in order. -/
structure NothingInjected (m : HttpMessage) : Prop extends NoControls m where
  closed : [] ∈ splitLines (ascii '\r') (ascii '\n') (Request.format m)
  lines : linesOfHead (ascii '\r') (ascii '\n') (Request.format m) = formattedLines m

/-- **Every character that is stored has been tested.** -/
theorem noControls_message {w : WireMessage} (hw : w.WellFormed .request) :
    NoControls w.message := by
  obtain ⟨hreceived, hcoherent⟩ := received_and_coherent_headers hw.head
  rcases w with ⟨⟨l | l, ls⟩, body⟩
  · have hl : l.WellFormed := hw.head.start.2
    have hstored {p : UInt8 → Bool} (hp : ∀ b, p b = true → isCtl b = false) {t : QByteArray}
        (ht : ∀ b ∈ t, p b = true) : NoControl (fromLatin1 t) :=
      (latin1Of_fromLatin1 ht).noControl hp
    constructor
    · exact hstored (fun _ ↦ isCtl_of_isTokenChar) hl.method
    · refine hstored (fun b hb ↦ ?_) hl.uri
      simp only [Bool.and_eq_true, Bool.not_eq_true'] at hb
      exact hb.2
    · intro name hname
      obtain ⟨value, hentry⟩ := (hcoherent.mem_names name).1 hname
      exact (hreceived _ hentry).1.noControl fun _ ↦ isCtl_of_isTokenChar
    · intro entry hentry
      obtain ⟨hname, hvalue⟩ := hreceived entry hentry
      exact ⟨hname.noControl fun _ ↦ isCtl_of_isTokenChar,
        hvalue.noControl fun b hb ↦ by simpa using hb⟩
  · exact absurd hw.head.start.1 (by simp)

/-- **A client cannot inject lines**: whatever bytes a request is accepted from, it is forwarded
with the lines of its head and no others. -/
theorem nothingInjected {p : HttpMessageParser} {stream rest : QByteArray} {c : Cursor}
    (hparse : parse (Cursor.start .request p).forget stream = (.valid, c, rest)) :
    NothingInjected c.message := by
  obtain ⟨w, hw, -, -, hmessage⟩ := exists_wireMessage_of_parse hparse
  have hclean : NoControls c.message := by
    rw [hmessage]
    exact noControls_message hw
  exact ⟨hclean, hclean.nil_mem_splitLines_format, hclean.linesOfHead_format⟩

/-- A request with a byte above ASCII, a folded field and a repeated name. -/
def accentedGet : QByteArray :=
  asciiBytes "GET /caf" ++ 0xE9 :: asciiBytes " HTTP/1.1\r\nVia: a\r\n b\r\nvia: c\r\n\r\n"

theorem accentedGet_nothingInjected :
    NothingInjected (parse (Cursor.start .request {}).forget accentedGet).2.1.message := by
  have hvalid : (parse (Cursor.start .request {}).forget accentedGet).1 = .valid := by
    decide +kernel
  exact nothingInjected (Prod.ext hvalid rfl)

end HttpMessageParser

end Amanuensis
