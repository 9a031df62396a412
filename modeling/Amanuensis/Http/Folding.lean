import Amanuensis.Http.Fields

/-!
# Folded fields

A field line may be followed by continuation lines, each starting with white space, that extend its
value. `FoldedField` is a field with its continuation lines and `FoldedHead` a head made of such
fields; every head the parser reads is one (`exists_foldedHead_of_not_stuck`), so that a header
section of any other shape is rejected.

The parser has a state for continuation lines, but the buffers it goes on with are empty by then and
the character that ends the white space is not put into them: what follows is stored as a header
with an empty name. The headers are those of the unfolded section, therefore, exactly when no
continuation line has any content (`storesUnfolded_iff`).
-/

namespace Amanuensis

namespace HttpMessageParser

open Scanner

/-! ### The headers are settled at the end of the head -/

theorem inHead_and_headers_expect {c : Cursor} {byte input : UInt8} {next : ParserState}
    (hc : InBody c) (hnext : next.inHead = false) :
    InBody (expect byte next c input).2 ∧
      (expect byte next c input).2.message.headers = c.message.headers := by
  unfold expect
  split
  · exact ⟨hnext, rfl⟩
  · exact ⟨hc, rfl⟩

/-- A byte of the body leaves the headers alone. -/
theorem inBody_and_headers_consume {c : Cursor} (hc : InBody c) (input : UInt8) :
    InBody (consume c input).2 ∧ (consume c input).2.message.headers = c.message.headers := by
  rcases c with ⟨⟨state, remaining, buffer, valueBuffer⟩, message, phase⟩
  cases state
  all_goals first | exact Bool.noConfusion (show true = false from hc) | skip
  all_goals dsimp only [consume]
  all_goals repeat' split
  all_goals first
    | exact ⟨rfl, rfl⟩
    | exact inHead_and_headers_expect rfl rfl

/-- **The body leaves the headers alone.** -/
theorem headers_scan_of_inBody {c : Cursor} (hc : InBody c) (bytes : QByteArray) :
    (scanner.scan c bytes).state.message.headers = c.message.headers := by
  refine (scanner.scan_state_induction
    (P := fun d ↦ InBody d ∧ d.message.headers = c.message.headers) ?_ ⟨hc, rfl⟩ bytes).2
  rintro d a ⟨hd, hheaders⟩
  obtain ⟨hbody, hsame⟩ := inBody_and_headers_consume hd a
  rw [InBody, parser_scanner_step, message_scanner_step]
  exact ⟨hbody, hsame.trans hheaders⟩

/-- A field and the continuation lines that follow it. -/
structure FoldedField extends PlainField where
  /-- The continuation lines: the white space each starts with, and what follows. -/
  continuations : List (QByteArray × QByteArray)
  indent_ne : ∀ l ∈ continuations, l.1 ≠ []
  indent_blank : ∀ l ∈ continuations, ∀ b ∈ l.1, HeaderLine.isBlank b = true
  content_head : ∀ l ∈ continuations, ∀ b ∈ l.2.head?, HeaderLine.isBlank b = false
  content_plain : ∀ l ∈ continuations, ∀ b ∈ l.2, (!isCtl b) = true

/-- A continuation line of a pair. -/
def continuationLine (l : QByteArray × QByteArray) : HeaderLine := .continuation l.1 l.2

namespace FoldedField

/-- The lines of a field. -/
def lines (f : FoldedField) : List HeaderLine :=
  f.line :: f.continuations.map continuationLine

end FoldedField

/-- A field without continuation lines. -/
def PlainField.onOneLine (f : PlainField) : FoldedField :=
  { f with
    continuations := []
    indent_ne := by simp
    indent_blank := by simp
    content_head := by simp
    content_plain := by simp }

/-- A head whose header section is a list of fields. -/
structure FoldedHead (mode : Mode) where
  start : StartLine
  fields : List FoldedField
  start_wellFormed : start.WellFormed mode

namespace FoldedHead

variable {mode : Mode}

/-- The head, line by line. -/
def toHead (h : FoldedHead mode) : Head where
  start := h.start
  lines := h.fields.flatMap FoldedField.lines

/-- The wire form of the head. -/
def render (h : FoldedHead mode) : QByteArray := h.toHead.render

/-- What the first lines of the fields deliver. -/
def firstLines (h : FoldedHead mode) : List (QString × QString) :=
  h.fields.map fun f ↦ f.entry

end FoldedHead

theorem linesWellFormed_append {h : Headers} {ls ls' : List HeaderLine} :
    LinesWellFormed h (ls ++ ls') ↔
      LinesWellFormed h ls ∧ LinesWellFormed (ls.foldl HeaderLine.store h) ls' := by
  induction ls generalizing h with
  | nil => simp [LinesWellFormed]
  | cons l ls ih => rw [List.cons_append, LinesWellFormed, LinesWellFormed, ih, and_assoc]; rfl

/-- Once there is a header there always is one. -/
theorem HeaderLine.empty_store {h : Headers} (hh : h.empty = false) (l : HeaderLine) :
    (l.store h).empty = false := by
  rcases l with ⟨name, value⟩ | ⟨indent, _ | ⟨c, content⟩⟩
  · rfl
  · exact hh
  · rfl

theorem linesWellFormed_continuations {h : Headers} (hh : h.empty = false)
    {ls : List (QByteArray × QByteArray)} :
    LinesWellFormed h (ls.map continuationLine) ↔
      ∀ l ∈ ls, l.1 ≠ [] ∧ (∀ b ∈ l.1, HeaderLine.isBlank b = true) ∧
        (∀ b ∈ l.2.head?, HeaderLine.isBlank b = false) ∧ ∀ b ∈ l.2, (!isCtl b) = true := by
  induction ls generalizing h with
  | nil => simp [LinesWellFormed]
  | cons l ls ih =>
    rw [List.map_cons, LinesWellFormed, ih (HeaderLine.empty_store hh _), List.forall_mem_cons]
    simp [continuationLine, HeaderLine.WellFormed, hh]

theorem FoldedField.linesWellFormed (f : FoldedField) (h : Headers) :
    LinesWellFormed h f.lines := by
  refine ⟨f.wellFormed_line h, ?_⟩
  rw [linesWellFormed_continuations rfl]
  exact fun l hl ↦
    ⟨f.indent_ne l hl, f.indent_blank l hl, f.content_head l hl, f.content_plain l hl⟩

/-- A folded head is one the parser reads. -/
theorem FoldedHead.wellFormed {mode : Mode} (h : FoldedHead mode) : h.toHead.WellFormed mode where
  start := h.start_wellFormed
  lines := by
    have hall (fields : List FoldedField) (hs : Headers) :
        LinesWellFormed hs (fields.flatMap FoldedField.lines) := by
      induction fields generalizing hs with
      | nil => trivial
      | cons f fields ih =>
        rw [List.flatMap_cons, linesWellFormed_append]
        exact ⟨f.linesWellFormed hs, ih _⟩
    exact hall h.fields {}

/-- Lines the parser reads are continuation lines of an earlier field, and then fields. -/
theorem exists_fields_of_linesWellFormed {h : Headers} {ls : List HeaderLine}
    (hls : LinesWellFormed h ls) :
    ∃ (cs : List (QByteArray × QByteArray)) (fields : List FoldedField),
      ls = cs.map continuationLine ++ fields.flatMap FoldedField.lines ∧
        (h.empty = true → cs = []) := by
  induction ls generalizing h with
  | nil => exact ⟨[], [], rfl, fun _ ↦ rfl⟩
  | cons l ls ih =>
    obtain ⟨hl, hrest⟩ := hls
    obtain ⟨cs, fields, rfl, -⟩ := ih hrest
    rcases l with ⟨name, value⟩ | ⟨indent, content⟩
    · -- a field line takes the continuation lines after it
      have hcs := (linesWellFormed_continuations (h := (HeaderLine.field name value).store h)
        rfl).1 (linesWellFormed_append.1 hrest).1
      refine ⟨[], ⟨⟨name, value, hl.1, hl.2.1, hl.2.2⟩, cs, fun l hm ↦ (hcs l hm).1,
        fun l hm ↦ (hcs l hm).2.1, fun l hm ↦ (hcs l hm).2.2.1,
        fun l hm ↦ (hcs l hm).2.2.2⟩ :: fields, rfl, fun _ ↦ rfl⟩
    · refine ⟨(indent, content) :: cs, fields, rfl, fun hempty ↦ ?_⟩
      exact absurd hl.1 (by simp [hempty])

/-- **What gets past the head has read a folded head.** Every other header section is rejected. -/
theorem exists_foldedHead_of_not_stuck {mode : Mode} {p : HttpMessageParser} {stream : QByteArray}
    (hns : ¬ Stuck InHead .invalid (scanner.scan (Cursor.start mode p).forget stream)) :
    ∃ (h : FoldedHead mode) (rest : QByteArray), stream = h.render ++ rest := by
  obtain ⟨⟨start, lines⟩, hwf, rest, rfl⟩ := exists_head_of_not_stuck hns
  obtain ⟨cs, fields, rfl, hcs⟩ := exists_fields_of_linesWellFormed hwf.lines
  obtain rfl := hcs rfl
  exact ⟨⟨start, fields, hwf.start⟩, rest, rfl⟩

/-! ### The unfolded section -/

/-- `value` is `first` followed by the contents, separated by white space. Where there is no content
there need not be any white space either. -/
def JoinsTo (first : QByteArray) : List (QByteArray × QByteArray) → QByteArray → Prop
  | [], value => value = first
  | l :: ls, value => ∃ gap, (∀ b ∈ gap, HeaderLine.isBlank b = true) ∧ (l.2 ≠ [] → gap ≠ []) ∧
      JoinsTo (first ++ (gap ++ l.2)) ls value

theorem joinsTo_foldl (first : QByteArray) (ls : List (QByteArray × QByteArray)) :
    JoinsTo first ls (ls.foldl (fun value l ↦ value ++ ascii ' ' :: l.2) first) := by
  induction ls generalizing first with
  | nil => rfl
  | cons l ls ih => exact ⟨[ascii ' '], by decide, by simp, ih _⟩

/-- The value of the unfolded field, with one space before each continuation line. -/
def FoldedField.unfoldedValue (f : FoldedField) : QByteArray :=
  f.continuations.foldl (fun value l ↦ value ++ ascii ' ' :: l.2) f.value

theorem FoldedField.joinsTo_unfoldedValue (f : FoldedField) :
    JoinsTo f.value f.continuations f.unfoldedValue :=
  joinsTo_foldl f.value f.continuations

/-- What the lines of a field deliver: its first line, and a header for each continuation line with
content. -/
theorem filterMap_entry_foldedField (f : FoldedField) :
    f.lines.filterMap HeaderLine.entry =
      f.entry :: f.continuations.filterMap fun l ↦ (continuationLine l).entry := by
  rw [FoldedField.lines, List.filterMap_cons, List.filterMap_map]
  rfl

namespace FoldedHead

variable {mode : Mode} (h : FoldedHead mode)

theorem headers_toHead :
    h.toHead.headers = Headers.insertAll {} (h.toHead.lines.filterMap HeaderLine.entry) :=
  Headers.foldl_store_eq_insertAll {} h.toHead.lines

theorem fields_toHead :
    h.toHead.fields = h.fields.flatMap fun f ↦
      f.entry :: f.continuations.filterMap fun l ↦ (continuationLine l).entry := by
  rw [Head.fields, toHead, List.filterMap_flatMap]
  exact List.flatMap_congr fun f _ ↦ filterMap_entry_foldedField f

end FoldedHead

/-- The empty name is no header's canonical name. -/
theorem canonicalize_ne_nil {name : QString} (hname : name ≠ []) :
    Headers.canonicalize name ≠ [] := by
  obtain ⟨c, name, rfl⟩ := List.exists_cons_of_ne_nil hname
  rw [Headers.canonicalize, Headers.canonicalizeFrom]
  split_ifs <;> simp

/-- **Continuation lines have no say in lookups by name.** -/
theorem FoldedHead.findByName_headers {mode : Mode} (h : FoldedHead mode) {name : QString}
    (hname : name ≠ []) :
    h.toHead.headers.findByName name = (Headers.insertAll {} h.firstLines).findByName name := by
  have hcanon : ([] : QString) ≠ Headers.canonicalize name := (canonicalize_ne_nil hname).symm
  have hskip (ls : List (QByteArray × QByteArray)) :
      (ls.filterMap fun l ↦ (continuationLine l).entry).filter
        (fun field ↦ Headers.canonicalize field.1 = Headers.canonicalize name) = [] := by
    rw [List.filter_eq_nil_iff]
    intro field hfield
    obtain ⟨⟨indent, _ | ⟨c, content⟩⟩, -, hl⟩ := List.mem_filterMap.1 hfield
    · exact absurd hl (by simp [continuationLine, HeaderLine.entry])
    · obtain rfl : ([], QString.fromLatin1 content) = field := by
        simpa [continuationLine, HeaderLine.entry] using hl
      simpa [Headers.canonicalize, Headers.canonicalizeFrom] using hcanon
  have hfilter : h.toHead.fields.filter
      (fun field ↦ Headers.canonicalize field.1 = Headers.canonicalize name) =
      h.firstLines.filter
        fun field ↦ Headers.canonicalize field.1 = Headers.canonicalize name := by
    rw [h.fields_toHead, FoldedHead.firstLines]
    induction h.fields with
    | nil => rfl
    | cons f fields ih =>
      rw [List.flatMap_cons, List.filter_append, List.filter_cons, List.map_cons, List.filter_cons,
        hskip, ih]
      split_ifs <;> rfl
  rw [h.headers_toHead, Headers.findByName_insertAll, Headers.findByName_insertAll]
  exact congrArg (fun l ↦ (l.map Prod.snd).reverse) hfilter

/-- **The framing is read off the first lines.** -/
theorem FoldedHead.framing_headers {mode : Mode} (h : FoldedHead mode) :
    framing h.toHead.headers = framing (Headers.insertAll {} h.firstLines) := by
  rw [framing, framing, h.findByName_headers (by decide), h.findByName_headers (by decide)]

/-- The request line `POST / HTTP/1.1`. -/
def simplePostLine : RequestLine where
  method := asciiBytes "POST"
  uri := asciiBytes "/"
  major := asciiBytes "1"
  minor := asciiBytes "1"

theorem wellFormed_simplePostLine :
    StartLine.WellFormed .request (.request simplePostLine) :=
  ⟨rfl, by decide, by decide, by decide, by decide, by decide, by decide, by decide⟩

end HttpMessageParser

end Amanuensis
