import Amanuensis.Http.BodyReading
import Amanuensis.Http.HeaderLaws
import Amanuensis.Http.Numerals

/-!
# Forwarding a request

`Request::format` writes the head of the stored message, one line for each header name, and then
the stored body read as UTF-8 and written as Latin-1 (`format_eq`). A head is recovered from its
bytes (`Head.eq_of_render_append_eq`), so that what a second parser makes of the output is known
without running it.

Two things go wrong. A chunked request is written with its `Transfer-Encoding` but without its
chunk framing, and no such output parses back to the same request
(`not_forwardPreserves_of_chunked`). A body of known length comes out unchanged exactly when it is
ASCII (`forwardsExactly_iff`).
-/

namespace Amanuensis

open HttpMessageParser

/-! ### What a head stores -/

/-- The field a header line stores. -/
def HttpMessageParser.HeaderLine.entry : HeaderLine → Option (QString × QString)
  | .field name value => some (QString.fromLatin1 name, QString.fromLatin1 value)
  | .continuation _ [] => none
  | .continuation _ (_ :: content) => some ([], QString.fromLatin1 content)

namespace Headers

/-- The one value a formatted request carries for a name. -/
def joined (h : Headers) (name : QString) : QString :=
  (QString.ofString ", ").intercalate (h.findByName name)

/-- Names are made of token characters and values hold no control character. -/
def Received (h : Headers) : Prop :=
  ∀ entry ∈ h.values, QString.Latin1Of isTokenChar entry.1 ∧
    QString.Latin1Of (fun b ↦ !isCtl b) entry.2

theorem Received.insert {h : Headers} (hh : h.Received) {name value : QString}
    (hname : QString.Latin1Of isTokenChar name)
    (hvalue : QString.Latin1Of (fun b ↦ !isCtl b) value) : (h.insert name value).Received :=
  List.forall_mem_cons.2 ⟨⟨latin1Of_canonicalize hname, hvalue⟩, hh⟩

/-- A well-formed line keeps the collection in order. -/
theorem Received.store {h : Headers} (hh : h.Received) {l : HeaderLine} (hl : l.WellFormed h) :
    (l.store h).Received := by
  rcases l with ⟨name, value⟩ | ⟨indent, _ | ⟨c, content⟩⟩
  · exact hh.insert (QString.latin1Of_fromLatin1 hl.2.1) (QString.latin1Of_fromLatin1 hl.2.2)
  · exact hh
  · obtain ⟨-, -, -, -, hcontent⟩ := hl
    exact hh.insert QString.latin1Of_nil
      (QString.latin1Of_fromLatin1 fun b hb ↦ hcontent b (List.mem_cons_of_mem c hb))

theorem Coherent.store {h : Headers} (hh : h.Coherent) (l : HeaderLine) :
    (l.store h).Coherent := by
  rcases l with ⟨name, value⟩ | ⟨indent, _ | ⟨c, content⟩⟩
  · exact hh.insert _ _
  · exact hh
  · exact hh.insert _ _

theorem received_and_coherent_foldl_store {ls : List HeaderLine} {h : Headers}
    (hls : LinesWellFormed h ls) (hr : h.Received) (hc : h.Coherent) :
    (ls.foldl HeaderLine.store h).Received ∧ (ls.foldl HeaderLine.store h).Coherent := by
  induction ls generalizing h with
  | nil => exact ⟨hr, hc⟩
  | cons l ls ih => exact ih hls.2 (hr.store hls.1) (hc.store l)

/-- The values found under a name hold no control character. -/
theorem Received.latin1Of_joined {h : Headers} (hh : h.Received) (name : QString) :
    QString.Latin1Of (fun b ↦ !isCtl b) (h.joined name) := by
  have hsep : QString.Latin1Of (fun b ↦ !isCtl b) (QString.fromLatin1 [ascii ',', ascii ' ']) :=
    QString.latin1Of_fromLatin1 (by decide)
  refine QString.Latin1Of.intercalate hsep fun value hvalue ↦ ?_
  obtain ⟨entry, hentry, rfl⟩ := List.mem_map.1 hvalue
  exact (hh entry (List.mem_of_mem_filter hentry)).2

end Headers

/-! ### The head a request is forwarded with -/

namespace HttpMessageParser

/-- The field line of a pair. -/
def fieldLine (f : QByteArray × QByteArray) : HeaderLine := .field f.1 f.2

/-- The fields `Request::format` writes: one for each name. -/
def forwardedFields (h : Headers) : List (QByteArray × QByteArray) :=
  h.names.map fun name ↦ (name.toLatin1, (h.joined name).toLatin1)

/-- The head `Request::format` writes. -/
def forwardedHead (m : HttpMessage) : Head where
  start := .request
    { method := m.method.toLatin1
      uri := m.uri.toLatin1
      major := (QString.number m.majorVersion).toLatin1
      minor := (QString.number m.minorVersion).toLatin1 }
  lines := (forwardedFields m.headers).map fieldLine

/-- **The bytes of a forwarded request**: a head, and the body through two text conversions. -/
theorem format_eq (m : HttpMessage) :
    Request.format m = (forwardedHead m).render ++ (QString.fromUtf8 m.body).toLatin1 := by
  have hbody : (if m.body.length > 0 then QString.fromUtf8 m.body else []) =
      QString.fromUtf8 m.body := by
    split_ifs with h
    · rfl
    · have hnil : m.body = [] := List.eq_nil_of_length_eq_zero (by omega)
      rw [hnil]
      rfl
  have hline : (m.headers.names.flatMap fun name ↦
      (name ++ QString.ofString ": " ++
        (QString.ofString ", ").intercalate (m.headers.findByName name) ++
        QString.ofString "\r\n").toLatin1) =
      (forwardedHead m).lines.flatMap HeaderLine.render := by
    rw [forwardedHead, forwardedFields, List.map_map, List.flatMap_map]
    refine List.flatMap_congr fun name _ ↦ ?_
    simp [fieldLine, HeaderLine.render, Headers.joined, crlf]
  rw [Request.format, hbody]
  simp only [QString.toLatin1_append, QString.toLatin1_flatMap, QString.toLatin1_ofString]
    at hline ⊢
  rw [hline]
  simp [Head.render, Head.renderInit, forwardedHead, StartLine.render, RequestLine.render,
    asciiBytes, crlf]

/-! ### A head is recovered from its bytes -/

/-- Splitting at the first delimiter. -/
theorem append_cons_inj {a : UInt8} {x x' y y' : QByteArray} (hx : a ∉ x) (hx' : a ∉ x')
    (h : x ++ a :: y = x' ++ a :: y') : x = x' ∧ y = y' := by
  induction x generalizing x' with
  | nil =>
    rcases x' with - | ⟨b, x'⟩
    · exact ⟨rfl, by simpa using h⟩
    · exact absurd (List.cons.inj h).1 fun hab ↦ hx' (hab ▸ List.mem_cons_self)
  | cons b x ih =>
    rcases x' with - | ⟨c, x'⟩
    · exact absurd (List.cons.inj h).1 fun hba ↦ hx (hba ▸ List.mem_cons_self)
    · obtain ⟨rfl, htail⟩ := List.cons.inj h
      obtain ⟨rfl, rfl⟩ := ih (fun hm ↦ hx (List.mem_cons_of_mem b hm))
        (fun hm ↦ hx' (List.mem_cons_of_mem b hm)) htail
      exact ⟨rfl, rfl⟩

/-- The delimiters of a request line are outside its parts. -/
structure RequestLine.Separated (l : RequestLine) : Prop where
  method : ascii ' ' ∉ l.method
  uri : ascii ' ' ∉ l.uri
  major : ascii '.' ∉ l.major
  minor : ascii '\r' ∉ l.minor

theorem RequestLine.WellFormed.separated {l : RequestLine} (h : l.WellFormed) : l.Separated where
  method hm := absurd (h.method _ hm) (by decide)
  uri hm := absurd (h.uri _ hm) (by decide)
  major hm := absurd (h.major _ hm) (by decide)
  minor hm := absurd (h.minor _ hm) (by decide)

theorem RequestLine.eq_of_render_append_eq {l l' : RequestLine} (hl : l.Separated)
    (hl' : l'.Separated) {x y : QByteArray} (h : l.render ++ x = l'.render ++ y) :
    l = l' ∧ x = y := by
  rcases l with ⟨method, uri, major, minor⟩
  rcases l' with ⟨method', uri', major', minor'⟩
  simp only [RequestLine.render, crlf, List.append_assoc, List.cons_append, List.nil_append] at h
  obtain ⟨rfl, h₁⟩ := append_cons_inj hl.method hl'.method h
  obtain ⟨rfl, h₂⟩ := append_cons_inj hl.uri hl'.uri h₁
  obtain ⟨rfl, h₃⟩ := append_cons_inj hl.major hl'.major (List.append_cancel_left h₂)
  obtain ⟨rfl, h₄⟩ := append_cons_inj hl.minor hl'.minor h₃
  exact ⟨rfl, (List.cons.inj h₄).2⟩

/-- A field whose name and value are kept apart by their delimiter; the name may be empty. -/
def IsPlainField (f : QByteArray × QByteArray) : Prop :=
  (∀ b ∈ f.1, isTokenChar b = true) ∧ ∀ b ∈ f.2, (!isCtl b) = true

/-- A field line starts with a token character or a colon. -/
theorem exists_render_fieldLine {f : QByteArray × QByteArray} (hf : IsPlainField f) :
    ∃ a t, (fieldLine f).render = a :: t ∧ (isTokenChar a = true ∨ a = ascii ':') := by
  obtain ⟨_ | ⟨a, name⟩, value⟩ := f
  · exact ⟨_, _, rfl, Or.inr rfl⟩
  · exact ⟨_, _, rfl, Or.inl (hf.1 a List.mem_cons_self)⟩

/-- A line starts with a token character or a blank. -/
theorem exists_render_of_wellFormed {h : Headers} {l : HeaderLine} (hl : l.WellFormed h) :
    ∃ a t, l.render = a :: t ∧ (isTokenChar a = true ∨ HeaderLine.isBlank a = true) := by
  rcases l with ⟨name, value⟩ | ⟨indent, content⟩
  · obtain ⟨hne, hname, -⟩ := hl
    obtain ⟨a, name, rfl⟩ := List.exists_cons_of_ne_nil hne
    exact ⟨_, _, rfl, Or.inl (hname a List.mem_cons_self)⟩
  · obtain ⟨-, hne, hindent, -⟩ := hl
    obtain ⟨a, indent, rfl⟩ := List.exists_cons_of_ne_nil hne
    exact ⟨_, _, rfl, Or.inr (hindent a List.mem_cons_self)⟩

/-- **The header section is recovered from its bytes.** -/
theorem lines_eq_of_render_append_eq {fs : List (QByteArray × QByteArray)}
    (hfs : ∀ f ∈ fs, IsPlainField f) {h : Headers} {ls : List HeaderLine}
    (hls : LinesWellFormed h ls) {x y : QByteArray}
    (heq : (fs.map fieldLine).flatMap HeaderLine.render ++ (crlf ++ x) =
      ls.flatMap HeaderLine.render ++ (crlf ++ y)) :
    ls = fs.map fieldLine ∧ x = y := by
  induction fs generalizing h ls with
  | nil =>
    rcases ls with - | ⟨l, ls⟩
    · exact ⟨rfl, List.append_cancel_left heq⟩
    · obtain ⟨a, t, hrender, ha⟩ := exists_render_of_wellFormed hls.1
      rw [List.flatMap_cons, hrender] at heq
      obtain rfl : ascii '\r' = a := (List.cons.inj heq).1
      exact absurd ha (by decide)
  | cons f fs ih =>
    obtain ⟨hf, hrest⟩ := List.forall_mem_cons.1 hfs
    obtain ⟨a, t, hrender, ha⟩ := exists_render_fieldLine hf
    rcases ls with - | ⟨l, ls⟩
    · rw [List.map_cons, List.flatMap_cons, hrender] at heq
      obtain rfl : a = ascii '\r' := (List.cons.inj heq).1
      exact absurd ha (by decide)
    rw [List.map_cons, List.flatMap_cons, List.flatMap_cons] at heq
    rcases l with ⟨name, value⟩ | ⟨indent, content⟩
    · obtain ⟨hne, hname, hvalue⟩ := hls.1
      obtain ⟨name', value'⟩ := f
      simp only [fieldLine, HeaderLine.render, crlf, List.append_assoc, List.cons_append,
        List.nil_append] at heq
      have hcolon {t : QByteArray} (ht : ∀ b ∈ t, isTokenChar b = true) : ascii ':' ∉ t :=
        fun hm ↦ absurd (ht _ hm) (by decide)
      have hcr {t : QByteArray} (ht : ∀ b ∈ t, (!isCtl b) = true) : ascii '\r' ∉ t :=
        fun hm ↦ absurd (ht _ hm) (by decide)
      obtain ⟨rfl, h₁⟩ := append_cons_inj (hcolon hf.1) (hcolon hname) heq
      obtain ⟨rfl, h₂⟩ := append_cons_inj (hcr hf.2) (hcr hvalue) (List.cons.inj h₁).2
      obtain ⟨rfl, rfl⟩ := ih hrest hls.2 (List.cons.inj h₂).2
      exact ⟨rfl, rfl⟩
    · -- a continuation line starts with a blank
      obtain ⟨-, hne, hindent, -⟩ := hls.1
      obtain ⟨c, indent, rfl⟩ := List.exists_cons_of_ne_nil hne
      have hc := hindent c List.mem_cons_self
      rw [hrender, HeaderLine.render] at heq
      obtain rfl : a = c := (List.cons.inj heq).1
      have hor : a = ascii ' ' ∨ a = ascii '\t' := by simpa [HeaderLine.isBlank] using hc
      rcases hor with rfl | rfl <;> exact absurd ha (by decide)

theorem isPlainField_of_mem_forwardedFields {h : Headers} (hr : h.Received) (hc : h.Coherent) :
    ∀ f ∈ forwardedFields h, IsPlainField f := by
  intro f hf
  obtain ⟨name, hname, rfl⟩ := List.mem_map.1 hf
  obtain ⟨value, hvalue⟩ := (hc.mem_names name).1 hname
  exact ⟨(hr _ hvalue).1.forall_mem_toLatin1, (hr.latin1Of_joined name).forall_mem_toLatin1⟩

/-- **A forwarded head is recovered from its bytes**: no other head of a request has them. -/
theorem head_eq_of_render_append_eq {m : HttpMessage} (hr : m.headers.Received)
    (hc : m.headers.Coherent) (hmethod : ascii ' ' ∉ m.method.toLatin1)
    (huri : ascii ' ' ∉ m.uri.toLatin1) {h : Head} (hh : h.WellFormed .request)
    {x y : QByteArray} (heq : (forwardedHead m).render ++ x = h.render ++ y) :
    h = forwardedHead m ∧ x = y := by
  rcases h with ⟨l | l, ls⟩
  · have hsep : RequestLine.Separated
        ⟨m.method.toLatin1, m.uri.toLatin1, (QString.number m.majorVersion).toLatin1,
          (QString.number m.minorVersion).toLatin1⟩ :=
      ⟨hmethod, huri, notMem_toLatin1_number (by decide) (by decide) _,
        notMem_toLatin1_number (by decide) (by decide) _⟩
    simp only [Head.render, Head.renderInit, List.append_assoc, List.cons_append,
      List.nil_append] at heq
    obtain ⟨rfl, hrest⟩ := RequestLine.eq_of_render_append_eq hsep hh.start.2.separated heq
    obtain ⟨rfl, rfl⟩ := lines_eq_of_render_append_eq
      (isPlainField_of_mem_forwardedFields hr hc) hh.lines hrest
    exact ⟨rfl, rfl⟩
  · exact absurd hh.start.1 (by simp)

/-! ### The framing of a forwarded head -/

theorem framing_eq_chunked_iff (h : Headers) :
    framing h = .chunked ↔
      (h.findByName (QString.ofString "Transfer-Encoding")).any listsChunked = true := by
  unfold framing
  split_ifs with hany
  · exact iff_of_true rfl hany
  · refine iff_of_false ?_ hany
    split
    · simp
    · split
      · simp
      · split <;> simp

/-- White space in front of a list does not matter. -/
theorem listsChunked_space_cons (s : QString) :
    listsChunked (QChar.ofChar ' ' :: s) = listsChunked s := by
  have hne : (QChar.ofChar ' ' == QChar.ofChar ',') = false := by decide
  have htrim (t : QString) : QString.trimmed (QChar.ofChar ' ' :: t) = t.trimmed := by
    rw [QString.trimmed, List.dropWhile_cons_of_pos (by decide)]
    rfl
  rw [listsChunked, listsChunked, List.splitOn_cons_eq_if_modifyHead, hne]
  rcases s.splitOn (QChar.ofChar ',') with - | ⟨t, ts⟩
  · rfl
  · simp [htrim]

theorem listsChunked_append (s t : QString) :
    listsChunked (s ++ QString.ofString ", " ++ t) = (listsChunked s || listsChunked t) := by
  have hsep : s ++ QString.ofString ", " ++ t =
      s ++ QChar.ofChar ',' :: (QChar.ofChar ' ' :: t) := by
    simp [QString.ofString]
  rw [← listsChunked_space_cons t, hsep, listsChunked, List.splitOn_append_cons_self,
    List.any_append]
  rfl

/-- **Joining coding lists joins the codings.** -/
theorem listsChunked_intercalate (values : List QString) :
    listsChunked ((QString.ofString ", ").intercalate values) = values.any listsChunked := by
  induction values with
  | nil => decide
  | cons value values ih =>
    rcases values with - | ⟨value', values⟩
    · simp
    · rw [List.intercalate_cons_cons, listsChunked_append, ih]
      rfl

/-- The stored headers of a forwarded head. -/
theorem headers_forwardedHead {m : HttpMessage} (hr : m.headers.Received)
    (hc : m.headers.Coherent) :
    (forwardedHead m).headers =
      Headers.insertAll {} (m.headers.names.map fun name ↦ (name, m.headers.joined name)) := by
  rw [Head.headers, forwardedHead, forwardedFields, List.map_map, List.foldl_map,
    Headers.insertAll, List.foldl_map]
  refine List.foldl_ext _ _ _ fun h name hname ↦ ?_
  obtain ⟨value, hvalue⟩ := (hc.mem_names name).1 hname
  show h.insert _ _ = _
  rw [(hr _ hvalue).1.fromLatin1_toLatin1, (hr.latin1Of_joined name).fromLatin1_toLatin1]

/-- A forwarded head carries one value for each name. -/
theorem findByName_forwardedHead {m : HttpMessage} (hr : m.headers.Received)
    (hc : m.headers.Coherent) {name : QString} (hname : name ∈ m.headers.names) :
    (forwardedHead m).headers.findByName name = [m.headers.joined name] := by
  have hfilter : ((m.headers.names.map fun name ↦ (name, m.headers.joined name)).filter
      fun field ↦ Headers.canonicalize field.1 = Headers.canonicalize name) =
      [(name, m.headers.joined name)] := by
    rw [List.filter_map]
    have hcongr : m.headers.names.filter ((fun field : QString × QString ↦
        decide (Headers.canonicalize field.1 = Headers.canonicalize name)) ∘
          fun name ↦ (name, m.headers.joined name)) =
        m.headers.names.filter (· == name) := by
      refine List.filter_congr fun n hn ↦ ?_
      rw [Function.comp_apply, hc.canonical n hn, hc.canonical name hname, Bool.eq_iff_iff,
        decide_eq_true_iff, beq_iff_eq]
    rw [hcongr, List.filter_beq, List.count_eq_one_of_mem hc.nodup hname]
    rfl
  rw [headers_forwardedHead hr hc, Headers.findByName_insertAll, hfilter]
  rfl

/-- **Chunked stays chunked.** -/
theorem framing_forwardedHead {m : HttpMessage} (hr : m.headers.Received)
    (hc : m.headers.Coherent) (hchunked : framing m.headers = .chunked) :
    framing (forwardedHead m).headers = .chunked := by
  rw [framing_eq_chunked_iff] at hchunked ⊢
  have hcanon : Headers.canonicalize (QString.ofString "Transfer-Encoding") =
      QString.ofString "Transfer-Encoding" := by decide
  have hmem : QString.ofString "Transfer-Encoding" ∈ m.headers.names := by
    obtain ⟨value, hvalue, -⟩ := List.any_eq_true.1 hchunked
    obtain ⟨⟨name, value⟩, hentry, rfl⟩ := List.mem_map.1 hvalue
    obtain ⟨hentry, hname⟩ := List.mem_filter.1 hentry
    rw [hcanon] at hname
    obtain rfl : name = QString.ofString "Transfer-Encoding" := by simpa using hname
    exact (hc.mem_names _).2 ⟨value, hentry⟩
  rw [findByName_forwardedHead hr hc hmem, List.any_cons, List.any_nil, Bool.or_false,
    Headers.joined, listsChunked_intercalate, hchunked]

/-! ### Chunked requests -/

/-- **Forwarding preserves a request**: the bytes it is formatted as are accepted by a reset parser
exactly at their last byte, with the same method, URI, version and body. -/
def ForwardPreserves (p : HttpMessageParser) (m : HttpMessage) : Prop :=
  ∃ c, parse (Cursor.start .request p).forget (Request.format m) = (.valid, c, []) ∧
    c.message.method = m.method ∧ c.message.uri = m.uri ∧
    c.message.majorVersion = m.majorVersion ∧ c.message.minorVersion = m.minorVersion ∧
    c.message.body = m.body

/-- Chunk framing takes room. -/
theorem length_content_add_five_le {f : Framing} {body : Body} (hbody : body.WellFormed f)
    (hf : f = .chunked) (hout : body.outcome = .valid) :
    body.content.length + 5 ≤ body.render.length := by
  subst hf
  cases body with
  | none | fixed => exact hbody.elim
  | chunked chunks last =>
    have hchunks : (chunks.flatMap Chunk.data).length ≤ (chunks.flatMap Chunk.render).length := by
      clear hbody hout
      induction chunks with
      | nil => simp
      | cons k ks ih =>
        simp only [List.flatMap_cons, List.length_append, Chunk.render, crlf, List.length_cons,
          List.length_nil] at ih ⊢
        omega
    cases last with
    | extension | trailer => exact absurd hout (by simp [Body.outcome, ChunksEnd.outcome])
    | terminator size =>
      have hsize := List.length_pos_iff.2 hbody.2.1.1
      simp only [Body.content, Body.render, ChunksEnd.render, crlf, List.length_append,
        List.length_cons, List.length_nil] at hchunks ⊢
      omega

/-- What the header section of an accepted request looks like. -/
theorem received_and_coherent_headers {mode : Mode} {h : Head} (hh : h.WellFormed mode) :
    h.headers.Received ∧ h.headers.Coherent :=
  Headers.received_and_coherent_foldl_store hh.lines (fun _ he ↦ absurd he List.not_mem_nil)
    Headers.coherent_empty

/-- **No chunked request is preserved.** The forwarded bytes announce chunks and hold none, and an
output that happened to parse would be too short for its own body. -/
theorem not_forwardPreserves_of_chunked (p p' : HttpMessageParser) {stream rest : QByteArray}
    {c : Cursor} (hparse : parse (Cursor.start .request p).forget stream = (.valid, c, rest))
    (hchunked : (c.message.headers.findByName (QString.ofString "Transfer-Encoding")).any
      listsChunked = true) : ¬ ForwardPreserves p' c.message := by
  obtain ⟨w, hw, -, -, hmessage⟩ := exists_wireMessage_of_parse hparse
  rw [← framing_eq_chunked_iff, hmessage] at hchunked
  rw [hmessage]
  clear hparse hmessage
  rintro ⟨c', hparse', -, -, -, -, hbody⟩
  obtain ⟨w', hw', hout', hrender, hmessage'⟩ := exists_wireMessage_of_parse hparse'
  have hheaders : w.message.headers = w.head.headers := rfl
  obtain ⟨hr, hc⟩ := received_and_coherent_headers hw.head
  have hstart : ascii ' ' ∉ w.message.method.toLatin1 ∧ ascii ' ' ∉ w.message.uri.toLatin1 := by
    rcases w with ⟨⟨l | l, ls⟩, body⟩
    · have hsep := hw.head.start.2.separated
      simp only [WireMessage.message, Head.message, StartLine.message, RequestLine.message,
        QString.toLatin1_fromLatin1]
      exact ⟨hsep.method, hsep.uri⟩
    · exact absurd hw.head.start.1 (by simp)
  -- the second head is the forwarded one, so the second body is what was written for the first
  rw [format_eq, List.append_nil, WireMessage.render] at hrender
  obtain ⟨hhead, hrest⟩ := head_eq_of_render_append_eq (hheaders ▸ hr) (hheaders ▸ hc) hstart.1
    hstart.2 hw'.head hrender
  have hframing : framing w'.head.headers = .chunked := by
    rw [hhead]
    exact framing_forwardedHead (hheaders ▸ hr) (hheaders ▸ hc) hchunked
  have hlong := length_content_add_five_le hw'.body hframing hout'
  have hshort : w'.body.render.length ≤ w.message.body.length := by
    rw [← hrest, QString.length_toLatin1]
    exact QString.length_fromUtf8_le _
  have hcontent : w'.body.content = w.message.body := by
    rw [← hbody, hmessage']
    rfl
  rw [hcontent] at hlong
  omega

/-- A chunked request. -/
def chunkedSimplePost : QByteArray :=
  asciiBytes "POST / HTTP/1.1\r\nTransfer-Encoding: chunked\r\n\r\n5\r\nhello\r\n0\r\n\r\n"

/-- The parser after it. -/
def chunkedSimplePostCursor : Cursor :=
  (parse (Cursor.start .request {}).forget chunkedSimplePost).2.1

theorem parse_chunkedSimplePost :
    parse (Cursor.start .request {}).forget chunkedSimplePost =
      (.valid, chunkedSimplePostCursor, []) :=
  Prod.ext (by decide +kernel) (Prod.ext rfl (by decide +kernel))

theorem chunkedSimplePost_forwarded :
    ¬ ∀ c rest, parse (Cursor.start .request {}).forget chunkedSimplePost = (.valid, c, rest) →
      (c.message.headers.findByName (QString.ofString "Transfer-Encoding")).any listsChunked →
        ForwardPreserves {} c.message := by
  intro h
  obtain ⟨c, hparse, -⟩ := h _ _ parse_chunkedSimplePost (by decide +kernel)
  have hinvalid : (parse (Cursor.start .request {}).forget
      (Request.format chunkedSimplePostCursor.message)).1 = .invalid := by decide +kernel
  rw [hparse] at hinvalid
  exact absurd hinvalid (by simp)

theorem chunkedSimplePost_not_preserved : ¬ ForwardPreserves {} chunkedSimplePostCursor.message :=
  not_forwardPreserves_of_chunked {} {} parse_chunkedSimplePost (by decide +kernel)

/-! ### Canonical requests -/

theorem linesWellFormed_map_fieldLine {fs : List (QByteArray × QByteArray)}
    (hne : ∀ f ∈ fs, f.1 ≠ []) (hplain : ∀ f ∈ fs, IsPlainField f) (h : Headers) :
    LinesWellFormed h (fs.map fieldLine) := by
  induction fs generalizing h with
  | nil => trivial
  | cons f fs ih =>
    obtain ⟨hf, hfs⟩ := List.forall_mem_cons.1 hplain
    obtain ⟨hf', hfs'⟩ := List.forall_mem_cons.1 hne
    exact ⟨⟨hf', hf.1, hf.2⟩, ih hfs' hfs _⟩

/-- Looking a field up in a list with distinct names. -/
theorem filter_map_eq_lookup {fs : List (QByteArray × QByteArray)} (hfs : (fs.map Prod.fst).Nodup)
    (name : QByteArray) :
    (fs.filter fun f ↦ f.1 = name).map Prod.snd = (fs.lookup name).toList := by
  induction fs with
  | nil => rfl
  | cons f fs ih =>
    obtain ⟨hnotMem, hnodup⟩ := List.nodup_cons.1 hfs
    by_cases hf : f.1 = name
    · subst hf
      have hnone : fs.filter (fun g ↦ g.1 = f.1) = [] := by
        refine List.filter_eq_nil_iff.2 fun g hg heq ↦ hnotMem ?_
        rw [← show g.1 = f.1 by simpa using heq]
        exact List.mem_map_of_mem hg
      rw [List.filter_cons_of_pos (by simp), hnone, List.lookup_cons_self]
      rfl
    · have hbeq : (name == f.1) = false := by simpa using fun h ↦ hf h.symm
      rw [List.filter_cons_of_neg (by simpa using hf), ih hnodup, List.lookup_cons, hbeq]

theorem lookup_eq_some_of_mem {fs : List (QByteArray × QByteArray)}
    (hfs : (fs.map Prod.fst).Nodup) {f : QByteArray × QByteArray} (hf : f ∈ fs) :
    fs.lookup f.1 = some f.2 := by
  induction fs with
  | nil => exact absurd hf List.not_mem_nil
  | cons g fs ih =>
    obtain ⟨hnotMem, hnodup⟩ := List.nodup_cons.1 hfs
    rcases List.mem_cons.1 hf with rfl | hf
    · exact List.lookup_cons_self
    · have hne : (f.1 == g.1) = false := by
        rw [beq_eq_false_iff_ne]
        exact fun heq ↦ hnotMem (heq ▸ List.mem_map_of_mem hf)
      rw [List.lookup_cons, hne]
      exact ih hnodup hf

/-- A request in canonical wire form: header names in canonical spelling and pairwise distinct,
versions without leading zeros and within `int`, no chunked coding, and a body as long as
`Content-Length` says. -/
structure CanonicalRequest where
  method : QByteArray
  uri : QByteArray
  major : ℕ
  minor : ℕ
  fields : List (QByteArray × QByteArray)
  body : QByteArray
  method_ne : method ≠ []
  method_token : ∀ b ∈ method, isTokenChar b = true
  uri_plain : ∀ b ∈ uri, (b != ascii ' ' && !isCtl b) = true
  major_lt : major < 2 ^ 31
  minor_lt : minor < 2 ^ 31
  name_ne : ∀ f ∈ fields, f.1 ≠ []
  fields_plain : ∀ f ∈ fields, IsPlainField f
  name_canonical : ∀ f ∈ fields,
    Headers.canonicalize (QString.fromLatin1 f.1) = QString.fromLatin1 f.1
  names_nodup : (fields.map Prod.fst).Nodup
  not_chunked : ∀ value ∈ fields.lookup (asciiBytes "Transfer-Encoding"),
    listsChunked (QString.fromLatin1 value) = false
  body_length :
    match fields.lookup (asciiBytes "Content-Length") with
    | none => body = []
    | some value =>
      (QString.fromLatin1 value).toULongLong.map UInt64.toNat = some body.length

namespace CanonicalRequest

/-- The head of the request. -/
def head (r : CanonicalRequest) : Head where
  start := .request ⟨r.method, r.uri, decimal r.major, decimal r.minor⟩
  lines := r.fields.map fieldLine

/-- The wire form of the request. -/
def render (r : CanonicalRequest) : QByteArray := r.head.render ++ r.body

variable (r : CanonicalRequest)

theorem head_wellFormed : r.head.WellFormed .request where
  start :=
    ⟨rfl,
      { method_ne := r.method_ne
        method := r.method_token
        uri := r.uri_plain
        major_ne := decimal_ne_nil _
        major := fun _ hb ↦ isDigit_of_mem_decimal hb
        minor_ne := decimal_ne_nil _
        minor := fun _ hb ↦ isDigit_of_mem_decimal hb }⟩
  lines := linesWellFormed_map_fieldLine r.name_ne r.fields_plain {}

/-- The fields, as the parser stores them. -/
def entries : List (QString × QString) :=
  r.fields.map fun f ↦ (QString.fromLatin1 f.1, QString.fromLatin1 f.2)

theorem headers_head : r.head.headers = Headers.insertAll {} r.entries := by
  rw [Head.headers, head, Headers.insertAll, entries, List.foldl_map, List.foldl_map]
  rfl

/-- A header of the message is the field of that name. -/
theorem findByName_headers (name : QByteArray)
    (hname : Headers.canonicalize (QString.fromLatin1 name) = QString.fromLatin1 name) :
    r.head.headers.findByName (QString.fromLatin1 name) =
      ((r.fields.lookup name).map QString.fromLatin1).toList := by
  have hfilter : (r.entries.filter fun entry ↦
      Headers.canonicalize entry.1 = Headers.canonicalize (QString.fromLatin1 name)) =
      (r.fields.filter fun f ↦ f.1 = name).map
        fun f ↦ (QString.fromLatin1 f.1, QString.fromLatin1 f.2) := by
    rw [entries, List.filter_map]
    refine congrArg _ (List.filter_congr fun f hf ↦ ?_)
    rw [Function.comp_apply, r.name_canonical f hf, hname, Bool.eq_iff_iff, decide_eq_true_iff,
      decide_eq_true_iff, QString.fromLatin1_injective.eq_iff]
  rw [headers_head, Headers.findByName_insertAll, hfilter, List.map_map]
  have hlookup := filter_map_eq_lookup r.names_nodup name
  have hsnd : ((r.fields.filter fun f ↦ f.1 = name).map
      (Prod.snd ∘ fun f ↦ (QString.fromLatin1 f.1, QString.fromLatin1 f.2))) =
      ((r.fields.lookup name).toList).map QString.fromLatin1 := by
    rw [← hlookup, List.map_map]
    rfl
  rw [hsnd]
  cases r.fields.lookup name <;> rfl

theorem names_headers : r.head.headers.names = r.fields.map fun f ↦ QString.fromLatin1 f.1 := by
  have hcanon : (r.entries.map fun entry ↦ Headers.canonicalize entry.1) =
      r.fields.map fun f ↦ QString.fromLatin1 f.1 := by
    rw [entries, List.map_map]
    exact List.map_congr_left fun f hf ↦ r.name_canonical f hf
  have hnodup := r.names_nodup.map QString.fromLatin1_injective
  rw [List.map_map] at hnodup
  rw [headers_head, Headers.names_insertAll Headers.coherent_empty, hcanon]
  · rfl
  · rw [hcanon]
    exact hnodup

theorem forwardedFields_headers : forwardedFields r.head.headers = r.fields := by
  rw [forwardedFields, names_headers, List.map_map]
  conv_rhs => rw [← List.map_id r.fields]
  refine List.map_congr_left fun f hf ↦ ?_
  have hfind := r.findByName_headers f.1 (r.name_canonical f hf)
  rw [lookup_eq_some_of_mem r.names_nodup hf] at hfind
  show ((QString.fromLatin1 f.1).toLatin1, (r.head.headers.joined _).toLatin1) = f
  rw [Headers.joined, hfind, Option.map_some, Option.toList_some, List.intercalate_singleton,
    QString.toLatin1_fromLatin1, QString.toLatin1_fromLatin1]

/-- **The head comes back** from the message the parser stores for it. -/
theorem forwardedHead_message (body : QByteArray) :
    forwardedHead { r.head.message with body := body } = r.head := by
  have hmajor : (QString.number (intValue (decimal r.major))).toLatin1 = decimal r.major := by
    rw [intValue_decimal r.major_lt, toLatin1_number_natCast]
  have hminor : (QString.number (intValue (decimal r.minor))).toLatin1 = decimal r.minor := by
    rw [intValue_decimal r.minor_lt, toLatin1_number_natCast]
  have hfields := r.forwardedFields_headers
  simp only [forwardedHead, Head.message_headers, hfields]
  simp only [head, Head.message, StartLine.message, RequestLine.message, hmajor, hminor,
    QString.toLatin1_fromLatin1]

/-- The wire message of the request. -/
def wireMessage : WireMessage where
  head := r.head
  body := if r.body = [] then .none else .fixed r.body

theorem render_wireMessage : r.wireMessage.render = r.render := by
  rw [WireMessage.render, wireMessage, render]
  split_ifs with h
  · rw [h]
    rfl
  · rfl

theorem content_wireMessage : r.wireMessage.body.content = r.body := by
  rw [wireMessage]
  split_ifs with h
  · rw [h]
    rfl
  · rfl

/-- The body goes with the framing the parser reads off the head. -/
theorem wireMessage_wellFormed : r.wireMessage.WellFormed .request := by
  refine ⟨r.head_wellFormed, ?_⟩
  have hte := r.findByName_headers (asciiBytes "Transfer-Encoding") (by decide)
  have hcl : r.head.headers.findByName (QString.ofString "Content-Length") =
      ((r.fields.lookup (asciiBytes "Content-Length")).map QString.fromLatin1).toList :=
    r.findByName_headers (asciiBytes "Content-Length") (by decide)
  have hany : ¬ (r.head.headers.findByName (QString.ofString "Transfer-Encoding")).any
      listsChunked = true := by
    have hnot := r.not_chunked
    show ¬ (r.head.headers.findByName (QString.fromLatin1 (asciiBytes "Transfer-Encoding"))).any
      listsChunked = true
    rw [hte]
    cases hlookup : r.fields.lookup (asciiBytes "Transfer-Encoding") with
    | none => simp
    | some value => simpa [hlookup] using hnot
  have hlength := r.body_length
  show Body.WellFormed (framing r.head.headers) (if r.body = [] then .none else .fixed r.body)
  rw [framing, if_neg hany, hcl]
  cases hlookup : r.fields.lookup (asciiBytes "Content-Length") with
  | none =>
    rw [hlookup] at hlength
    rw [if_pos hlength]
    trivial
  | some value =>
    rw [hlookup] at hlength
    obtain ⟨length, hvalue, htoNat⟩ := Option.map_eq_some_iff.1 hlength
    simp only [Option.map_some, Option.toList_some, hvalue]
    by_cases hzero : length = 0
    · have hnil : r.body = [] := List.eq_nil_of_length_eq_zero (by rw [← htoNat, hzero]; rfl)
      rw [if_pos hzero, if_pos hnil]
      trivial
    · have hne : r.body ≠ [] := by
        intro hnil
        rw [hnil, List.length_nil] at htoNat
        exact hzero (UInt64.toNat_inj.1 htoNat)
      rw [if_neg hzero, if_neg hne]
      exact htoNat.symm

/-- **Forwarding is byte-faithful**: the request is accepted up to its last byte, and what it is
formatted as are the same bytes. -/
def ForwardsExactly (p : HttpMessageParser) : Prop :=
  ∃ c, parse (Cursor.start .request p).forget r.render = (.valid, c, []) ∧
    Request.format c.message = r.render

/-- **A canonical request is forwarded byte for byte exactly when its body is ASCII.** -/
theorem forwardsExactly_iff (p : HttpMessageParser) :
    r.ForwardsExactly p ↔ ∀ b ∈ r.body, b.toNat < 0x80 := by
  have hout : r.wireMessage.outcome = .valid := by
    rw [WireMessage.outcome, wireMessage]
    split_ifs <;> rfl
  have hparse := parse_render r.wireMessage_wellFormed hout p []
  rw [List.append_nil, render_wireMessage] at hparse
  have hformat : Request.format r.wireMessage.atEnd.message =
      r.head.render ++ (QString.fromUtf8 r.body).toLatin1 := by
    have hmessage : r.wireMessage.atEnd.message = { r.head.message with body := r.body } := by
      show { r.head.message with body := r.wireMessage.body.content } = _
      rw [content_wireMessage]
    rw [hmessage, format_eq, forwardedHead_message]
  rw [← QString.toLatin1_fromUtf8_eq_self_iff, ForwardsExactly, hparse]
  constructor
  · rintro ⟨c, heq, hc⟩
    obtain rfl : r.wireMessage.atEnd = c := by simpa using heq
    rw [hformat] at hc
    exact List.append_cancel_left hc
  · intro h
    refine ⟨_, rfl, ?_⟩
    rw [hformat, h]
    rfl

end CanonicalRequest

/-- A canonical request whose body is the UTF-8 form of one accented letter. -/
def accentedPost : CanonicalRequest where
  method := asciiBytes "POST"
  uri := asciiBytes "/"
  major := 1
  minor := 1
  fields := [(asciiBytes "Content-Length", asciiBytes "2")]
  body := [0xC3, 0xA9]
  method_ne := by decide
  method_token := by decide
  uri_plain := by decide
  major_lt := by decide
  minor_lt := by decide
  name_ne := by decide
  fields_plain := by simp only [IsPlainField]; decide
  name_canonical := by decide
  names_nodup := by decide
  not_chunked := by decide
  body_length := by
    show (QString.fromLatin1 (asciiBytes "2")).toULongLong.map UInt64.toNat = some 2
    decide

theorem accentedPost_not_forwardsExactly : ¬ accentedPost.ForwardsExactly {} := by
  rintro ⟨c, hparse, hformat⟩
  have hne :
      Request.format (parse (Cursor.start .request {}).forget accentedPost.render).2.1.message ≠
        accentedPost.render := by decide +kernel
  rw [hparse] at hne
  exact hne hformat

end HttpMessageParser

end Amanuensis
