import Amanuensis.Http.Forwarding

/-!
# The order of repeated header fields

A proxy has to keep the order of the field lines that share a name (RFC 7230, section 3.2.2).
`Request::format` writes one line for each name, at the place of its first occurrence, but lists its
values as the hash does, from the most recently inserted to the least recently inserted one. The
line of a name is in order, therefore, exactly when its values read the same in both directions
(`headersInOrder_iff`).
-/

namespace Amanuensis

open HttpMessageParser

/-! ### Fields received -/

/-- The fields the lines of a header section deliver, in the order received. -/
def HttpMessageParser.Head.fields (h : Head) : List (QString × QString) :=
  h.lines.filterMap HeaderLine.entry

namespace Headers

/-- The names of the fields, in canonical spelling, each where it occurs first. -/
def firstNames (fields : List (QString × QString)) : List QString :=
  (fields.map fun field ↦ canonicalize field.1).eraseDups

/-- The values received under a name, in the order received. -/
def valuesOf (fields : List (QString × QString)) (name : QString) : List QString :=
  (fields.filter fun field ↦ canonicalize field.1 = canonicalize name).map Prod.snd

/-- Values on one line. -/
def commaJoin (values : List QString) : QString := (QString.ofString ", ").intercalate values

/-- A line stores the field it delivers. -/
theorem store_eq_insertAll (h : Headers) (l : HeaderLine) :
    l.store h = h.insertAll l.entry.toList := by
  rcases l with ⟨name, value⟩ | ⟨indent, _ | ⟨c, content⟩⟩ <;> rfl

theorem insertAll_append (h : Headers) (fields fields' : List (QString × QString)) :
    h.insertAll (fields ++ fields') = (h.insertAll fields).insertAll fields' :=
  List.foldl_append

/-- **A header section inserts its fields**, one after another. -/
theorem foldl_store_eq_insertAll (h : Headers) (ls : List HeaderLine) :
    ls.foldl HeaderLine.store h = h.insertAll (ls.filterMap HeaderLine.entry) := by
  induction ls generalizing h with
  | nil => rfl
  | cons l ls ih =>
    have hsplit : (l :: ls).filterMap HeaderLine.entry =
        l.entry.toList ++ ls.filterMap HeaderLine.entry := by
      cases hl : l.entry <;> simp [hl]
    rw [List.foldl_cons, ih, hsplit, insertAll_append, store_eq_insertAll]

/-- **The names are listed in the order of their first occurrence.** -/
theorem names_insertAll_eq_firstNames (fields : List (QString × QString)) :
    (insertAll {} fields).names = firstNames fields := by
  induction fields using List.reverseRecOn with
  | nil => rfl
  | append_singleton fields field ih =>
    have hnames := (coherent_empty.insertAll fields).names_insert field.1 field.2
    have hlast : insertAll {} (fields ++ [field]) =
        (insertAll {} fields).insert field.1 field.2 := by
      rw [insertAll_append]
      rfl
    rw [hlast, hnames, ih, firstNames, firstNames, List.map_append, List.eraseDups_append]
    by_cases hmem : canonicalize field.1 ∈ fields.map fun field ↦ canonicalize field.1
    · rw [if_pos (List.mem_eraseDups.2 hmem)]
      simp only [List.map_cons, List.map_nil, List.removeAll, List.filter_cons]
      rw [if_neg (by simpa using hmem)]
      exact (List.append_nil _).symm
    · rw [if_neg fun h ↦ hmem (List.mem_eraseDups.1 h)]
      simp only [List.map_cons, List.map_nil, List.removeAll, List.filter_cons]
      rw [if_pos (by simpa using hmem)]
      rfl

/-- The line of a name lists its values backwards. -/
theorem joined_insertAll (fields : List (QString × QString)) (name : QString) :
    (insertAll {} fields).joined name = commaJoin (valuesOf fields name).reverse := by
  rw [joined, findByName_insertAll]
  rfl

end Headers

/-! ### Lines in order -/

namespace HttpMessageParser

/-- The head of a request, with the line of each name in order. -/
def orderedHead (h : Head) (m : HttpMessage) : Head :=
  { forwardedHead m with
    lines := (Headers.firstNames h.fields).map fun name ↦
      fieldLine (name.toLatin1, (Headers.commaJoin (Headers.valuesOf h.fields name)).toLatin1) }

/-- **Repeated headers are forwarded in order**: the request is formatted with one line for each
name, in the order of first occurrence, that carries the values in the order received. -/
def HeadersInOrder (h : Head) (m : HttpMessage) : Prop :=
  Request.format m = (orderedHead h m).render ++ (QString.fromUtf8 m.body).toLatin1

/-- Lines for the same names agree when their values do. -/
theorem flatMap_fieldLine_inj {names : List QString} {values values' : QString → QByteArray}
    (hvalues : ∀ name ∈ names, ascii '\r' ∉ values name)
    (hvalues' : ∀ name ∈ names, ascii '\r' ∉ values' name) :
    (names.map fun name ↦ fieldLine (name.toLatin1, values name)).flatMap HeaderLine.render =
        (names.map fun name ↦ fieldLine (name.toLatin1, values' name)).flatMap HeaderLine.render ↔
      ∀ name ∈ names, values name = values' name := by
  induction names with
  | nil => simp
  | cons name names ih =>
    obtain ⟨hname, hnames⟩ := List.forall_mem_cons.1 hvalues
    obtain ⟨hname', hnames'⟩ := List.forall_mem_cons.1 hvalues'
    rw [List.forall_mem_cons, ← ih hnames hnames']
    constructor
    · intro heq
      simp only [List.map_cons, List.flatMap_cons, fieldLine, HeaderLine.render, crlf,
        List.append_assoc, List.cons_append, List.nil_append] at heq
      -- past the name and the separator, a value ends at its CR
      have htail := (List.cons.inj (List.cons.inj (List.append_cancel_left heq)).2).2
      obtain ⟨hvalue, hrest⟩ := append_cons_inj hname hname' htail
      exact ⟨hvalue, (List.cons.inj hrest).2⟩
    · rintro ⟨hvalue, hrest⟩
      rw [List.map_cons, List.map_cons, List.flatMap_cons, List.flatMap_cons, hvalue, hrest]

/-- Joining values brings in no control character. -/
theorem latin1Of_commaJoin {values : List QString}
    (hvalues : ∀ value ∈ values, QString.Latin1Of (fun b ↦ !isCtl b) value) :
    QString.Latin1Of (fun b ↦ !isCtl b) (Headers.commaJoin values) := by
  have hsep : QString.Latin1Of (fun b ↦ !isCtl b) (QString.fromLatin1 [ascii ',', ascii ' ']) :=
    QString.latin1Of_fromLatin1 (by decide)
  exact QString.Latin1Of.intercalate hsep hvalues

/-- The values received hold no control character. -/
theorem latin1Of_of_mem_valuesOf {fields : List (QString × QString)}
    (hreceived : (Headers.insertAll {} fields).Received) {name value : QString}
    (hvalue : value ∈ Headers.valuesOf fields name) :
    QString.Latin1Of (fun b ↦ !isCtl b) value := by
  obtain ⟨field, hfield, rfl⟩ := List.mem_map.1 hvalue
  have hentry : (Headers.canonicalize field.1, field.2) ∈ (Headers.insertAll {} fields).values := by
    rw [Headers.values_insertAll]
    refine List.mem_append_left _ (List.mem_reverse.2 ?_)
    exact List.mem_map.2 ⟨field, List.mem_of_mem_filter hfield, rfl⟩
  exact (hreceived _ hentry).2

/-- **When the lines are in order**: the values of each name, joined, read the same backwards. -/
theorem headersInOrder_iff_of_head {h : Head} (hh : h.WellFormed .request) {m : HttpMessage}
    (hm : m.headers = h.headers) :
    HeadersInOrder h m ↔ ∀ name ∈ Headers.firstNames h.fields,
      Headers.commaJoin (Headers.valuesOf h.fields name).reverse =
        Headers.commaJoin (Headers.valuesOf h.fields name) := by
  have hheaders : m.headers = Headers.insertAll {} h.fields :=
    hm.trans (Headers.foldl_store_eq_insertAll {} h.lines)
  have hreceived : (Headers.insertAll {} h.fields).Received := by
    rw [← hheaders, hm]
    exact (received_and_coherent_headers hh).1
  have hplain (name : QString) {values : List QString}
      (hvalues : ∀ value ∈ values, value ∈ Headers.valuesOf h.fields name) :
      QString.Latin1Of (fun b ↦ !isCtl b) (Headers.commaJoin values) :=
    latin1Of_commaJoin fun value hvalue ↦ latin1Of_of_mem_valuesOf hreceived (hvalues value hvalue)
  have hforward (name : QString) : QString.Latin1Of (fun b ↦ !isCtl b)
      (Headers.commaJoin (Headers.valuesOf h.fields name)) := hplain name fun _ ↦ id
  have hbackward (name : QString) : QString.Latin1Of (fun b ↦ !isCtl b)
      (Headers.commaJoin (Headers.valuesOf h.fields name).reverse) :=
    hplain name fun _ ↦ List.mem_reverse.1
  have hcr {s : QString} (hs : QString.Latin1Of (fun b ↦ !isCtl b) s) :
      ascii '\r' ∉ s.toLatin1 := fun hmem ↦ absurd (hs.forall_mem_toLatin1 _ hmem) (by decide)
  -- the formatter walks the names as they were inserted, and each name's values backwards
  have hlines : (forwardedHead m).lines = (Headers.firstNames h.fields).map fun name ↦
      fieldLine (name.toLatin1,
        (Headers.commaJoin (Headers.valuesOf h.fields name).reverse).toLatin1) := by
    rw [forwardedHead, forwardedFields, hheaders, Headers.names_insertAll_eq_firstNames,
      List.map_map]
    refine List.map_congr_left fun name _ ↦ ?_
    rw [Function.comp_apply, Headers.joined_insertAll]
  have hrender : HeadersInOrder h m ↔
      (forwardedHead m).lines.flatMap HeaderLine.render =
        (orderedHead h m).lines.flatMap HeaderLine.render := by
    rw [HeadersInOrder, format_eq, List.append_cancel_right_eq]
    simp [Head.render, Head.renderInit, orderedHead]
  rw [hrender, hlines]
  refine (flatMap_fieldLine_inj (fun name _ ↦ hcr (hbackward name))
    fun name _ ↦ hcr (hforward name)).trans ?_
  refine forall₂_congr fun name _ ↦ ⟨fun heq ↦ ?_, fun heq ↦ by rw [heq]⟩
  -- without control characters a value survives Latin-1
  rw [← (hbackward name).fromLatin1_toLatin1, heq, (hforward name).fromLatin1_toLatin1]

/-- **When repeated headers are forwarded in order**, for every accepted request. -/
theorem headersInOrder_iff {p : HttpMessageParser} {stream rest : QByteArray} {c : Cursor}
    (hparse : parse (Cursor.start .request p).forget stream = (.valid, c, rest)) :
    ∃ w : WireMessage, w.WellFormed .request ∧ stream = w.render ++ rest ∧
      (HeadersInOrder w.head c.message ↔ ∀ name ∈ Headers.firstNames w.head.fields,
        Headers.commaJoin (Headers.valuesOf w.head.fields name).reverse =
          Headers.commaJoin (Headers.valuesOf w.head.fields name)) := by
  obtain ⟨w, hw, -, hstream, hmessage⟩ := exists_wireMessage_of_parse hparse
  exact ⟨w, hw, hstream, headersInOrder_iff_of_head hw.head (by rw [hmessage]; rfl)⟩

/-- A `GET` request with two fields of one name. -/
def repeatedHeader (first second : String) : WireMessage where
  head :=
    { start := .request
        { method := asciiBytes "GET"
          uri := asciiBytes "/"
          major := asciiBytes "1"
          minor := asciiBytes "1" }
      lines :=
        [.field (asciiBytes "Via") (asciiBytes first),
          .field (asciiBytes "via") (asciiBytes second)] }
  body := .none

/-- Two values are forwarded in the wrong order. -/
theorem repeatedHeader_not_inOrder :
    ∃ c, parse (Cursor.start .request {}).forget (repeatedHeader "a" "b").render = (.valid, c, []) ∧
      ¬ HeadersInOrder (repeatedHeader "a" "b").head c.message := by
  have hhead : (repeatedHeader "a" "b").head.WellFormed .request :=
    ⟨⟨rfl, by decide, by decide, by decide, by decide, by decide, by decide, by decide⟩,
      ⟨by decide, by decide, by decide⟩, ⟨by decide, by decide, by decide⟩, trivial⟩
  have hbody : (repeatedHeader "a" "b").body.WellFormed
      (framing (repeatedHeader "a" "b").head.headers) := by
    have hframing : framing (repeatedHeader "a" "b").head.headers = .none := by decide +kernel
    rw [hframing]
    trivial
  have hparse := parse_render (w := repeatedHeader "a" "b") ⟨hhead, hbody⟩ rfl {} []
  rw [List.append_nil] at hparse
  refine ⟨_, hparse, fun horder ↦ ?_⟩
  have hjoin := (headersInOrder_iff_of_head hhead rfl).1 horder (QString.ofString "Via")
    (by decide)
  exact absurd hjoin (by decide)

/-- The parser after two values that are the same. -/
def mirroredHeaderCursor : Cursor :=
  (parse (Cursor.start .request {}).forget (repeatedHeader "a" "a").render).2.1

theorem mirroredHeader_inOrder_iff :
    ∃ w : WireMessage, w.WellFormed .request ∧ (repeatedHeader "a" "a").render = w.render ++ [] ∧
      (HeadersInOrder w.head mirroredHeaderCursor.message ↔
        ∀ name ∈ Headers.firstNames w.head.fields,
          Headers.commaJoin (Headers.valuesOf w.head.fields name).reverse =
            Headers.commaJoin (Headers.valuesOf w.head.fields name)) := by
  have hparse : parse (Cursor.start .request {}).forget (repeatedHeader "a" "a").render =
      (.valid, mirroredHeaderCursor, []) :=
    Prod.ext (by decide +kernel) (Prod.ext rfl (by decide +kernel))
  exact headersInOrder_iff hparse

end HttpMessageParser

end Amanuensis
