import Amanuensis.Http.Chunks
import Amanuensis.Http.LegalHeads
import Amanuensis.Http.Lengths

/-!
# Response bodies by RFC 7230

How the fields of a legal head delimit a body, by RFC 7230, section 3.3.3: the last transfer coding
is `chunked` and the body is written in chunks, possibly with extensions and a trailer
(`ChunkedBody`), or there is no transfer coding and the content length is that of the body.

The parser goes by what it has stored of the same head. `LegalHead.parsedLength` is where it lets
the response end, and `exists_taken_of_valid` that there it does end, if it ends at all.
-/

namespace Amanuensis

namespace HttpMessageParser

/-! ### Fields -/

namespace LegalLine

/-- What the continuation lines in front add to the value before them. -/
def foldedValue : List LegalLine → QByteArray
  | fold _ content :: ls => ascii ' ' :: (content ++ foldedValue ls)
  | _ => []

/-- The fields, each with its name and its unfolded value. -/
def fields : List LegalLine → List (QByteArray × QByteArray)
  | field name value :: ls => (name, value ++ foldedValue ls) :: fields ls
  | fold _ _ :: ls => fields ls
  | [] => []

theorem exists_mem_fields {ls : List LegalLine} {name value : QByteArray}
    (hmem : field name value ∈ ls) : ∃ unfolded, (name, unfolded) ∈ fields ls := by
  induction ls with
  | nil => cases hmem
  | cons l ls ih =>
    rcases List.mem_cons.1 hmem with rfl | hmem
    · exact ⟨_, List.mem_cons_self⟩
    · obtain ⟨unfolded, hunfolded⟩ := ih hmem
      cases l with
      | field => exact ⟨unfolded, List.mem_cons_of_mem _ hunfolded⟩
      | fold => exact ⟨unfolded, hunfolded⟩

/-- A name that no field has finds nothing. -/
theorem findByName_foldl_store {ls : List LegalLine} {name : QString}
    (hname : Headers.canonicalize name ≠ [])
    (hnone : ∀ n value, field n value ∈ ls → ¬ Headers.SameName (QString.fromLatin1 n) name)
    {h : Headers} (hh : h.findByName name = []) :
    ((ls.map toHeaderLine).foldl HeaderLine.store h).findByName name = [] := by
  have hinsert {h : Headers} {n value : QString} (hh : h.findByName name = [])
      (hn : Headers.canonicalize n ≠ Headers.canonicalize name) :
      (h.insert n value).findByName name = [] := by
    rw [Headers.findByName, Headers.insert, List.filter_cons_of_neg (by simpa using hn)]
    exact hh
  induction ls generalizing h with
  | nil => exact hh
  | cons l ls ih =>
    refine ih (fun n value hmem ↦ hnone n value (List.mem_cons_of_mem l hmem)) ?_
    rcases l with ⟨n, value⟩ | ⟨indent, _ | ⟨c, content⟩⟩
    · refine hinsert hh fun heq ↦ hnone n value List.mem_cons_self ?_
      exact (Headers.canonicalize_eq_iff _ _).1 heq
    · exact hh
    · exact hinsert hh fun heq ↦ hname heq.symm

end LegalLine

namespace LegalHead

variable {h : LegalHead}

/-- The values of the fields of a name, continuation lines unfolded, in the order received. -/
def valuesOf (h : LegalHead) (name : QString) : List QString :=
  ((LegalLine.fields h.lines).filter fun f ↦
    Headers.SameName (QString.fromLatin1 f.1) name).map fun f ↦ QString.fromLatin1 f.2

/-- The last transfer coding is `chunked`. -/
def LastIsChunked (h : LegalHead) : Prop :=
  ∃ coding ∈ ((h.valuesOf (QString.ofString "Transfer-Encoding")).flatMap
    QString.listElements).getLast?, QString.EqIgnoreCase coding (QString.ofString "chunked")

/-- There is a content length, and all of them are this one. -/
def HasLength (h : LegalHead) (n : ℕ) : Prop :=
  h.valuesOf (QString.ofString "Content-Length") ≠ [] ∧
    ∀ value ∈ h.valuesOf (QString.ofString "Content-Length"), value.Denotes n

theorem lines_ne_nil_of_valuesOf {name : QString} (hne : h.valuesOf name ≠ []) : h.lines ≠ [] := by
  intro hnil
  rw [valuesOf, hnil] at hne
  exact hne rfl

/-- What is not among the fields is not stored. -/
theorem findByName_parsed {name : QString} (hname : Headers.canonicalize name ≠ [])
    (hnone : h.valuesOf name = []) : h.parsed.headers.findByName name = [] := by
  refine LegalLine.findByName_foldl_store hname (fun n value hmem hsame ↦ ?_) rfl
  have hmem : LegalLine.field n value ∈ h.lines := by
    rw [parsedLines] at hmem
    split_ifs at hmem
    · exact List.mem_of_mem_tail hmem
    · exact hmem
  obtain ⟨unfolded, hunfolded⟩ := LegalLine.exists_mem_fields hmem
  have hfilter := List.map_eq_nil_iff.1 hnone
  exact absurd (List.filter_eq_nil_iff.1 hfilter _ hunfolded) (by simpa using hsame)

/-- Without a transfer coding the parser does not find chunks. -/
theorem framing_parsed_ne_chunked
    (hnone : h.valuesOf (QString.ofString "Transfer-Encoding") = []) :
    framing h.parsed.headers ≠ .chunked := by
  rw [Ne, framing_eq_chunked_iff, findByName_parsed (by decide) hnone]
  simp

/-- Without the two fields the parser finds no framing. -/
theorem framing_parsed_eq_none
    (hcoding : h.valuesOf (QString.ofString "Transfer-Encoding") = [])
    (hlength : h.valuesOf (QString.ofString "Content-Length") = []) :
    framing h.parsed.headers = .none := by
  rw [framing, findByName_parsed (by decide) hcoding, findByName_parsed (by decide) hlength]
  rfl

end LegalHead

/-! ### Chunks -/

/-- What may follow a chunk size on its line. -/
def IsExtension (ext : QByteArray) : Prop :=
  (∀ b ∈ ext.head?, b = ascii ';') ∧ ∀ b ∈ ext, isFieldByte b = true

/-- A chunk of data whose size line may have an extension. -/
structure ExtendedChunk extends DataChunk where
  ext : QByteArray
  ext_legal : IsExtension ext

/-- The wire form of a chunk. -/
def ExtendedChunk.render (k : ExtendedChunk) : QByteArray :=
  k.size ++ (k.ext ++ (crlf ++ (k.data ++ crlf)))

/-- A body in chunks: chunks of data, a last chunk written with zeros, and a trailer. -/
structure ChunkedBody where
  chunks : List ExtendedChunk
  /-- One less than the number of zeros. -/
  lastSize : ℕ
  lastExt : QByteArray
  lastExt_legal : IsExtension lastExt
  trailer : List LegalLine
  trailer_legal : ∀ l ∈ trailer, l.Legal

namespace ChunkedBody

/-- The wire form of what comes after the chunks of data. -/
def renderLast (b : ChunkedBody) : QByteArray :=
  zeros b.lastSize ++ (b.lastExt ++ (crlf ++ (b.trailer.flatMap LegalLine.render ++ crlf)))

/-- The wire form of the body. -/
def render (b : ChunkedBody) : QByteArray :=
  b.chunks.flatMap ExtendedChunk.render ++ b.renderLast

end ChunkedBody

/-- Two size lines with the same bytes: the one that the parser has read has no extension. -/
theorem size_eq_of_append_eq {size size' ext y y' : QByteArray} (hsize : ∀ b ∈ size, isHex b = true)
    (hsize' : ∀ b ∈ size', isHex b = true) (hext : IsExtension ext)
    (heq : size ++ (crlf ++ y) = size' ++ (ext ++ (crlf ++ y'))) :
    size = size' ∧ ext = [] ∧ y = y' := by
  have hcr (y : QByteArray) : ∀ b ∈ (crlf ++ y).head?, isHex b = false := by
    rintro b ⟨⟩
    decide
  have hhead : ∀ b ∈ (ext ++ (crlf ++ y')).head?, isHex b = false := by
    rcases ext with - | ⟨c, ext⟩
    · exact hcr y'
    · rintro b ⟨⟩
      rw [hext.1 c rfl]
      decide
  obtain ⟨rfl, h₁⟩ := append_class_inj hsize hsize' (hcr y) hhead heq
  rcases ext with - | ⟨c, ext⟩
  · exact ⟨rfl, rfl, List.append_cancel_left h₁⟩
  · have hc : ascii '\r' = c := (List.cons.inj h₁).1
    exact absurd (hc.trans (hext.1 c rfl)) (by decide)

/-- **The parser ends a body in chunks at its end**, if it accepts it. -/
theorem rest_eq_nil_of_chunks {ks : List Chunk} (hks : ∀ k ∈ ks, k.WellFormed) {last : ChunksEnd}
    (hlast : last.WellFormed) (hvalid : last.outcome = .valid) {chunks : List ExtendedChunk}
    {b : ChunkedBody} {z : QByteArray}
    (heq : ks.flatMap Chunk.render ++ (last.render ++ z) =
      chunks.flatMap ExtendedChunk.render ++ b.renderLast) : z = [] := by
  obtain ⟨size, rfl⟩ : ∃ size, last = .terminator size := by
    cases last with
    | terminator size => exact ⟨size, rfl⟩
    | extension | trailer => exact absurd hvalid (by simp [ChunksEnd.outcome])
  obtain ⟨hsize, hzero⟩ := hlast
  induction ks generalizing chunks with
  | nil =>
    rw [List.flatMap_nil, List.nil_append, ChunksEnd.render, List.append_assoc,
      List.append_assoc] at heq
    rcases chunks with - | ⟨c, chunks⟩
    · obtain ⟨-, -, h₁⟩ := size_eq_of_append_eq hsize.2 (isSize_zeros _).1.2 b.lastExt_legal heq
      rcases htrailer : b.trailer with - | ⟨l, ls⟩ <;> rw [htrailer] at h₁
      · exact List.append_right_eq_self.1 h₁
      · -- a line of the trailer does not start with a carriage return
        have hl : l.Legal := b.trailer_legal l (by rw [htrailer]; exact List.mem_cons_self)
        obtain ⟨a, t, hbytes, -⟩ := LegalLine.exists_bytes_eq_cons hl
        have hcr := LegalLine.cr_notMem_bytes hl
        rw [List.flatMap_cons, LegalLine.render, hbytes] at h₁
        obtain rfl : ascii '\r' = a := (List.cons.inj h₁).1
        exact absurd (hbytes ▸ List.mem_cons_self) hcr
    · rw [List.flatMap_cons, ExtendedChunk.render] at heq
      simp only [List.append_assoc] at heq
      obtain ⟨rfl, -, -⟩ := size_eq_of_append_eq hsize.2 c.size_hex c.ext_legal heq
      have hlength := c.sizeValue_size
      rw [hzero] at hlength
      exact absurd (List.length_eq_zero_iff.1 hlength.symm) c.data_ne
  | cons k ks ih =>
    obtain ⟨hk, hks⟩ := List.forall_mem_cons.1 hks
    rw [List.flatMap_cons, Chunk.render] at heq
    simp only [List.append_assoc] at heq
    rcases chunks with - | ⟨c, chunks⟩
    · obtain ⟨hsame, -, -⟩ :=
        size_eq_of_append_eq hk.size.2 (isSize_zeros _).1.2 b.lastExt_legal heq
      exact absurd (hsame ▸ (isSize_zeros _).2) hk.size_ne_zero
    · rw [List.flatMap_cons, ExtendedChunk.render] at heq
      simp only [List.append_assoc] at heq
      obtain ⟨hsame, -, h₁⟩ := size_eq_of_append_eq hk.size.2 c.size_hex c.ext_legal heq
      have hlength : k.data.length = c.data.length := by
        rw [hk.length, hsame, c.sizeValue_size]
      exact ih hks (List.append_cancel_left (List.append_inj h₁ hlength).2)

/-! ### The status of a response -/

end HttpMessageParser

/-- The states after the status code of a response. -/
def ParserState.afterStatus : ParserState → Bool
  | .methodStart | .method | .uri | .httpVersionH | .httpVersionT1 | .httpVersionT2
  | .httpVersionP | .httpVersionSlash | .httpVersionMajorStart | .httpVersionMajor
  | .httpVersionMinorStart | .httpVersionMinor | .responseStart | .responseHttpT1
  | .responseHttpT2 | .responseHttpP | .responseHttpSlash | .responseMajorVersionStart
  | .responseMajorVersion | .responseMinorVersionStart | .responseMinorVersion
  | .responseStatusCodeStart | .responseStatusCode => false
  | _ => true

namespace HttpMessageParser

/-- No byte after the status code changes it. -/
theorem statusCode_consume {c : Cursor} (hc : c.parser.state.afterStatus = true) (input : UInt8) :
    (consume c input).2.parser.state.afterStatus = true ∧
      (consume c input).2.message.statusCode = c.message.statusCode := by
  revert hc
  rcases c with ⟨⟨state, remaining, buffer, valueBuffer⟩, message, phase⟩
  cases state
  all_goals rintro ⟨⟩
  all_goals dsimp only [consume, expect, Cursor.endHeaders]
  all_goals repeat' split
  all_goals exact ⟨rfl, rfl⟩

/-- A scan that begins after the status code leaves it as it is. -/
theorem statusCode_scan_of_afterStatus {c : Cursor} (hc : c.parser.state.afterStatus = true)
    (bytes : QByteArray) :
    (scanner.scan c bytes).state.message.statusCode = c.message.statusCode := by
  refine (scanner.scan_state_induction (P := fun d ↦ d.parser.state.afterStatus = true ∧
    d.message.statusCode = c.message.statusCode) (fun d input hd ↦ ?_) ⟨hc, rfl⟩ bytes).2
  obtain ⟨hafter, hcode⟩ := statusCode_consume hd.1 input
  rw [hd.2] at hcode
  rcases hconsume : consume d input with ⟨_ | _ | _ | _ | _, d'⟩ <;>
    rw [hconsume] at hafter hcode <;> simp only [scanner, hconsume] <;> exact ⟨hafter, hcode⟩

/-- **The status of a head** is the one stored, whether the head is read or not. -/
theorem LegalHead.statusCode_scan (h : LegalHead) (rest : QByteArray) :
    (scanner.scan (.start .response {}) (h.render ++ rest)).state.message.statusCode =
      h.statusCode := by
  have hone {d : UInt8} (hd : isDigit d = true) : IsWord isDigit [d] :=
    isWord_iff.2 ⟨List.cons_ne_nil d [], by simpa using hd⟩
  have hstatus : IsWord isDigit h.status :=
    isWord_iff.2 ⟨List.ne_nil_of_length_eq_add_one h.status_length, h.status_digit⟩
  have hnumbers := (reads_statusNumbers (r := 0) (b := []) (v := [])).complete
    ([h.major], [h.minor], h.status) ⟨hone h.major_digit, hone h.minor_digit, hstatus⟩
    (h.reason ++ (crlf ++ (h.lines.flatMap LegalLine.render ++ crlf)) ++ rest)
  have hsplit : h.render ++ rest = asciiBytes "HTTP/" ++ ([h.major] ++ ascii '.' :: ([h.minor] ++
      ascii ' ' :: (h.status ++ [ascii ' ']))) ++
        (h.reason ++ (crlf ++ (h.lines.flatMap LegalLine.render ++ crlf)) ++ rest) := by
    simp [LegalHead.render]
  have hforget := scan_forget (.start .response {}) (h.render ++ rest)
  have hcursor : (Cursor.start .response {}).forget = cursorAt .responseStart 0 [] [] {} := rfl
  have hcode := congrArg (fun r ↦ (Scanner.Scan.state r).message.statusCode) hforget
  refine hcode.symm.trans ?_
  rw [hcursor, hsplit]
  dsimp only at hnumbers ⊢
  rw [hnumbers]
  exact statusCode_scan_of_afterStatus rfl _

/-! ### The end of a response -/

namespace LegalHead

variable {h : LegalHead} {body bytes : QByteArray}

/-- The fields delimit the body: it is in chunks, or it has the length that they give. -/
def Delimits (h : LegalHead) (body : QByteArray) : Prop :=
  (h.LastIsChunked ∧ ∃ b : ChunkedBody, body = b.render) ∨
    h.valuesOf (QString.ofString "Transfer-Encoding") = [] ∧ h.HasLength body.length

/-- The number of bytes at which the parser lets the response end: it goes by the fields that it has
stored, and ends at the end of the head where they announce nothing. -/
def parsedLength (h : LegalHead) (body : QByteArray) : ℕ :=
  h.render.length +
    match framing h.parsed.headers with
    | .chunked => body.length
    | .fixed length => length.toNat
    | .none | .malformed => 0

theorem lines_ne_nil_of_delimits (hbody : h.Delimits body) : h.lines ≠ [] := by
  rcases hbody with ⟨⟨coding, hcoding, -⟩, -⟩ | ⟨-, hlength⟩
  · have hne : h.valuesOf (QString.ofString "Transfer-Encoding") ≠ [] := by
      intro hnil
      simp [hnil] at hcoding
    exact lines_ne_nil_of_valuesOf hne
  · exact lines_ne_nil_of_valuesOf hlength.1

/-- **Where a response ends that is accepted**, of a head that delimits its body or has none. -/
theorem exists_taken_of_valid (hbody : body = [] ∨ h.Delimits body)
    (hpre : bytes <+: h.render ++ body)
    (hvalid : (scanner.scan (.start .response {}) bytes).verdict = some .valid) :
    ∃ taken, taken <+: bytes ∧ taken.length = h.parsedLength body ∧
      (scanner.scan (.start .response {}) taken).verdict = some .valid := by
  obtain ⟨⟨k, w⟩, hw, hout, htaken, -⟩ := exists_wireMessage_of_scan hvalid
  refine ⟨_, htaken, ?_, verdict_scan_render hw hout {}⟩
  obtain ⟨z, heq⟩ := htaken.trans hpre
  have hlengths := congrArg List.length heq
  rw [WireMessage.render, List.append_assoc] at heq
  obtain ⟨hread, rfl, hrest⟩ | ⟨-, hlines, hlonger⟩ := eq_parsed_of_render_append_eq hw.head heq
  · have hwf : w.WellFormed (framing h.parsed.headers) := hw.body
    rw [WireMessage.render, List.length_append, render_parsed hread, parsedLength]
    congr 1
    cases hf : framing h.parsed.headers with
    | none =>
      rw [hf] at hwf
      cases w with
      | none => rfl
      | fixed | chunked => exact hwf.elim
    | malformed =>
      rw [hf] at hwf
      exact hwf.elim
    | fixed length =>
      rw [hf] at hwf
      cases w with
      | fixed content => exact hwf
      | none | chunked => exact hwf.elim
    | chunked =>
      rw [hf] at hwf
      obtain rfl : z = [] := by
        rcases hbody with rfl | ⟨-, b, rfl⟩ | ⟨hcoding, -⟩
        · exact (List.append_eq_nil_iff.1 hrest).2
        · cases w with
          | chunked ks last =>
            rw [Body.render, List.append_assoc] at hrest
            exact rest_eq_nil_of_chunks hwf.1 hwf.2 hout hrest
          | none | fixed => exact hwf.elim
        · exact absurd hf (framing_parsed_ne_chunked hcoding)
      rw [← hrest, List.append_nil]
  · -- without a field the head is followed by nothing
    rcases hbody with rfl | hbody
    · rw [WireMessage.render, List.append_nil, List.length_append, List.length_append] at hlengths
      exact absurd hlengths (by dsimp only at hlonger ⊢; omega)
    · exact absurd hlines (lines_ne_nil_of_delimits hbody)

end LegalHead

end HttpMessageParser

end Amanuensis
