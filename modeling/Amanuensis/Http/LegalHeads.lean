import Amanuensis.Http.Chunks
import Amanuensis.Http.HeaderCollection
import Amanuensis.Http.Lengths

/-!
# Response heads by RFC 7230

The heads a server may send (`LegalHead`), by the grammar of RFC 7230 and not by that of the
parser: a reason phrase may be empty or hold bytes beyond ASCII, a value need not be set off from
its colon and may hold tabs, a value may go on in continuation lines.

The parser does not read all of them. It takes the line break and the first field line for the
reason phrase where that is empty, and rejects what it has no state for. `LegalHead.IsRead` says of
the bytes of a head whether they are read, and `LegalHead.parsed` what they are then read as;
nothing else is read from them (`LegalHead.eq_parsed_of_render_append_eq`).
-/

namespace Amanuensis

namespace HttpMessageParser

/-- A byte of a field value or of a reason phrase: a tab, or no control byte. -/
def isFieldByte (b : UInt8) : Bool := b = ascii '\t' || !isCtl b

theorem ne_cr_of_isFieldByte {b : UInt8} (hb : isFieldByte b = true) : b ≠ ascii '\r' := by
  rintro rfl
  exact absurd hb (by decide)

theorem isCtl_of_isFieldByte {b : UInt8} (hb : isFieldByte b = true) (htab : b ≠ ascii '\t') :
    isCtl b = false := by
  simpa [isFieldByte, htab] using hb

/-- Splitting after the longest run of bytes of one class. -/
theorem append_class_inj {p : UInt8 → Bool} {x x' y y' : QByteArray} (hx : ∀ b ∈ x, p b = true)
    (hx' : ∀ b ∈ x', p b = true) (hy : ∀ b ∈ y.head?, p b = false)
    (hy' : ∀ b ∈ y'.head?, p b = false) (heq : x ++ y = x' ++ y') : x = x' ∧ y = y' := by
  have hsplit {x y : QByteArray} (hx : ∀ b ∈ x, p b = true) (hy : ∀ b ∈ y.head?, p b = false) :
      (x ++ y).takeWhile p = x ∧ (x ++ y).dropWhile p = y := by
    rw [List.takeWhile_append_of_pos hx, List.dropWhile_append_of_pos hx]
    rcases y with - | ⟨b, y⟩
    · simp
    · have hb : ¬ p b = true := by simp [hy b rfl]
      rw [List.takeWhile_cons_of_neg hb, List.dropWhile_cons_of_neg hb, List.append_nil]
      exact ⟨rfl, rfl⟩
  obtain ⟨htake, hdrop⟩ := hsplit hx hy
  obtain ⟨htake', hdrop'⟩ := hsplit hx' hy'
  rw [heq] at htake hdrop
  exact ⟨htake.symm.trans htake', hdrop.symm.trans hdrop'⟩

/-! ### Lines -/

/-- A line of the header section: a field, with everything after its colon, or a continuation line,
with the white space it starts with. -/
inductive LegalLine
  | field (name value : QByteArray)
  | fold (indent content : QByteArray)

namespace LegalLine

/-- The line without its line break. -/
def bytes : LegalLine → QByteArray
  | field name value => name ++ ascii ':' :: value
  | fold indent content => indent ++ content

/-- The wire form of a line. -/
def render (l : LegalLine) : QByteArray := l.bytes ++ crlf

/-- The lines the RFC allows, and those with a `>` in a name, which is no token character there. -/
def Legal : LegalLine → Prop
  | field name value =>
    name ≠ [] ∧ (∀ b ∈ name, isTokenChar b = true) ∧ ∀ b ∈ value, isFieldByte b = true
  | fold indent content =>
    indent ≠ [] ∧ (∀ b ∈ indent, HeaderLine.isBlank b = true) ∧
      (∀ b ∈ content.head?, HeaderLine.isBlank b = false) ∧ ∀ b ∈ content, isFieldByte b = true

/-- The line starts a field. -/
def IsField : LegalLine → Prop
  | field _ _ => True
  | fold _ _ => False

/-- The parser can read the line: the value comes after one space, and there is no tab in it. -/
def IsRead : LegalLine → Prop
  | field _ value => value.head? = some (ascii ' ') ∧ ascii '\t' ∉ value
  | fold _ content => ascii '\t' ∉ content

instance : DecidablePred IsField
  | field _ _ => isTrue trivial
  | fold _ _ => isFalse id

instance : DecidablePred IsRead
  | field _ _ => inferInstanceAs (Decidable (_ ∧ _))
  | fold _ content => inferInstanceAs (Decidable (ascii '\t' ∉ content))

/-- What the parser takes the line for. -/
def toHeaderLine : LegalLine → HeaderLine
  | field name value => .field name value.tail
  | fold indent content => .continuation indent content

variable {l : LegalLine} {h : Headers}

theorem exists_bytes_eq_cons (hl : l.Legal) :
    ∃ a t, l.bytes = a :: t ∧
      (isTokenChar a = true ∧ l.IsField ∨ HeaderLine.isBlank a = true ∧ ¬ l.IsField) := by
  rcases l with ⟨name, value⟩ | ⟨indent, content⟩
  · obtain ⟨hne, hname, -⟩ := hl
    obtain ⟨a, name, rfl⟩ := List.exists_cons_of_ne_nil hne
    exact ⟨a, _, rfl, .inl ⟨hname a List.mem_cons_self, trivial⟩⟩
  · obtain ⟨hne, hindent, -⟩ := hl
    obtain ⟨a, indent, rfl⟩ := List.exists_cons_of_ne_nil hne
    exact ⟨a, _, rfl, .inr ⟨hindent a List.mem_cons_self, id⟩⟩

/-- A line has no carriage return in it. -/
theorem cr_notMem_bytes (hl : l.Legal) : ascii '\r' ∉ l.bytes := by
  have hplain {t : QByteArray} (ht : ∀ b ∈ t, isFieldByte b = true) : ascii '\r' ∉ t :=
    fun hm ↦ ne_cr_of_isFieldByte (ht _ hm) rfl
  rcases l with ⟨name, value⟩ | ⟨indent, content⟩
  · obtain ⟨-, hname, hvalue⟩ := hl
    refine List.not_mem_append (fun hm ↦ absurd (hname _ hm) (by decide)) ?_
    exact List.not_mem_cons_of_ne_of_not_mem (by decide) (hplain hvalue)
  · obtain ⟨-, hindent, -, hcontent⟩ := hl
    exact List.not_mem_append (fun hm ↦ absurd (hindent _ hm) (by decide)) (hplain hcontent)

/-- What the parser takes a line for has the bytes of the line. -/
theorem render_toHeaderLine (hread : l.IsRead) : l.toHeaderLine.render = l.render := by
  rcases l with ⟨name, value⟩ | ⟨indent, content⟩
  · obtain ⟨hspace, -⟩ := hread
    have hvalue : value = ascii ' ' :: value.tail := (List.cons_head?_tail hspace).symm
    rw [toHeaderLine, HeaderLine.render, render, bytes, hvalue]
    simp
  · simp [toHeaderLine, HeaderLine.render, render, bytes]

/-- A readable line is one of the lines the parser accepts, a continuation line only after a field.
-/
theorem wellFormed_toHeaderLine (hl : l.Legal) (hread : l.IsRead)
    (hh : l.IsField ∨ h.empty = false) : l.toHeaderLine.WellFormed h := by
  rcases l with ⟨name, value⟩ | ⟨indent, content⟩
  · obtain ⟨hne, hname, hvalue⟩ := hl
    refine ⟨hne, hname, fun b hb ↦ ?_⟩
    have hmem : b ∈ value := List.mem_of_mem_tail hb
    simp [isCtl_of_isFieldByte (hvalue b hmem) (ne_of_mem_of_not_mem hmem hread.2)]
  · obtain ⟨hne, hindent, hhead, hcontent⟩ := hl
    refine ⟨hh.resolve_left id, hne, hindent, hhead, fun b hb ↦ ?_⟩
    simp [isCtl_of_isFieldByte (hcontent b hb) (ne_of_mem_of_not_mem hb hread)]

/-- Readable lines are accepted one after another, if the first of them may stand where it does. -/
theorem linesWellFormed_map {ls : List LegalLine} (hls : ∀ l ∈ ls, l.Legal)
    (hread : ∀ l ∈ ls, l.IsRead) (hh : (∀ l ∈ ls.head?, l.IsField) ∨ h.empty = false) :
    LinesWellFormed h (ls.map toHeaderLine) := by
  induction ls generalizing h with
  | nil => trivial
  | cons l ls ih =>
    obtain ⟨hl, hls⟩ := List.forall_mem_cons.1 hls
    obtain ⟨hlread, hread⟩ := List.forall_mem_cons.1 hread
    have hfirst : l.IsField ∨ h.empty = false := hh.imp_left fun hfield ↦ hfield l rfl
    refine ⟨wellFormed_toHeaderLine hl hlread hfirst, ih hls hread (.inr ?_)⟩
    obtain ⟨name, value⟩ | ⟨indent, content⟩ := l
    · rfl
    · exact HeaderLine.empty_store (hfirst.resolve_left id) _

theorem render_map_toHeaderLine {ls : List LegalLine} (hread : ∀ l ∈ ls, l.IsRead) :
    (ls.map toHeaderLine).flatMap HeaderLine.render = ls.flatMap render := by
  rw [List.flatMap_map]
  exact List.flatMap_congr fun l hl ↦ render_toHeaderLine (hread l hl)

theorem head?_append_crlf {content y : QByteArray}
    (hhead : ∀ b ∈ content.head?, HeaderLine.isBlank b = false) :
    ∀ b ∈ (content ++ (crlf ++ y)).head?, HeaderLine.isBlank b = false := by
  rcases content with - | ⟨c, content⟩
  · rintro b ⟨⟩
    decide
  · exact hhead

theorem isBlank_of_isTokenChar {b : UInt8} (hb : isTokenChar b = true) :
    HeaderLine.isBlank b = false := by
  refine Bool.eq_false_iff.2 fun hblank ↦ ?_
  have hor : b = ascii ' ' ∨ b = ascii '\t' := by simpa [HeaderLine.isBlank] using hblank
  rcases hor with rfl | rfl <;> exact absurd hb (by decide)

/-- **One line**: what the parser reads a line for, if it reads it. -/
theorem eq_of_render_append_eq {k : HeaderLine} (hl : l.Legal) (hk : k.WellFormed h)
    {x y : QByteArray} (heq : k.render ++ x = l.render ++ y) :
    k = l.toHeaderLine ∧ l.IsRead ∧ (h.empty = true → l.IsField) ∧ x = y := by
  have htab : isCtl (ascii '\t') = true := by decide
  have hcr {t : QByteArray} (ht : ∀ b ∈ t, (!isCtl b) = true) : ascii '\r' ∉ t :=
    fun hm ↦ absurd (ht _ hm) (by decide)
  rcases l with ⟨name, value⟩ | ⟨indent, content⟩ <;>
    rcases k with ⟨name', value'⟩ | ⟨indent', content'⟩
  · obtain ⟨-, hname, hvalue⟩ := hl
    obtain ⟨-, hname', hvalue'⟩ := hk
    have hcolon {t : QByteArray} (ht : ∀ b ∈ t, isTokenChar b = true) : ascii ':' ∉ t :=
      fun hm ↦ absurd (ht _ hm) (by decide)
    have hspace : ascii '\r' ∉ ascii ' ' :: value' :=
      List.not_mem_cons_of_ne_of_not_mem (by decide) (hcr hvalue')
    simp only [HeaderLine.render, render, bytes, crlf, List.append_assoc, List.cons_append,
      List.nil_append] at heq
    obtain ⟨rfl, h₁⟩ := append_cons_inj (hcolon hname') (hcolon hname) heq
    obtain ⟨rfl, h₂⟩ := append_cons_inj (x := ascii ' ' :: value') hspace
      (fun hm ↦ ne_cr_of_isFieldByte (hvalue _ hm) rfl) h₁
    refine ⟨rfl, ⟨rfl, List.not_mem_cons_of_ne_of_not_mem (by decide) fun hm ↦ ?_⟩,
      fun _ ↦ trivial, (List.cons.inj h₂).2⟩
    simpa [htab] using hvalue' _ hm
  · -- a field starts with a token character, a continuation line with a blank
    obtain ⟨a, name, rfl⟩ := List.exists_cons_of_ne_nil hl.1
    obtain ⟨b, indent, rfl⟩ := List.exists_cons_of_ne_nil hk.2.1
    obtain rfl : b = a := (List.cons.inj heq).1
    exact absurd (hk.2.2.1 b List.mem_cons_self)
      (by simp [isBlank_of_isTokenChar (hl.2.1 b List.mem_cons_self)])
  · obtain ⟨a, indent, rfl⟩ := List.exists_cons_of_ne_nil hl.1
    obtain ⟨b, name, rfl⟩ := List.exists_cons_of_ne_nil hk.1
    obtain rfl : b = a := (List.cons.inj heq).1
    exact absurd (hl.2.1 b List.mem_cons_self)
      (by simp [isBlank_of_isTokenChar (hk.2.1 b List.mem_cons_self)])
  · obtain ⟨-, hindent, hhead, hcontent⟩ := hl
    obtain ⟨hstored, -, hindent', hhead', hcontent'⟩ := hk
    rw [HeaderLine.render, render, bytes, List.append_assoc, List.append_assoc, List.append_assoc,
      List.append_assoc] at heq
    obtain ⟨rfl, h₁⟩ := append_class_inj hindent' hindent (head?_append_crlf hhead')
      (head?_append_crlf hhead) heq
    obtain ⟨rfl, h₂⟩ := append_cons_inj (hcr hcontent')
      (fun hm ↦ ne_cr_of_isFieldByte (hcontent _ hm) rfl) h₁
    refine ⟨rfl, fun hm ↦ ?_, fun hempty ↦ ?_, (List.cons.inj h₂).2⟩
    · simpa [htab] using hcontent' _ hm
    · exact absurd hempty (by simp [hstored])

/-- **The header section**: its lines are read one by one, up to the empty line. -/
theorem lines_eq_of_render_append_eq {ls : List LegalLine} (hls : ∀ l ∈ ls, l.Legal)
    {ks : List HeaderLine} (hks : LinesWellFormed h ks) {x y : QByteArray}
    (heq : ks.flatMap HeaderLine.render ++ (crlf ++ x) = ls.flatMap render ++ (crlf ++ y)) :
    ks = ls.map toHeaderLine ∧ (∀ l ∈ ls, l.IsRead) ∧
      (h.empty = true → ∀ l ∈ ls.head?, l.IsField) ∧ x = y := by
  induction ls generalizing h ks with
  | nil =>
    rcases ks with - | ⟨k, ks⟩
    · exact ⟨rfl, by simp, by simp, List.append_cancel_left heq⟩
    · obtain ⟨a, t, hrender, ha⟩ := exists_render_of_wellFormed hks.1
      rw [List.flatMap_cons, hrender] at heq
      obtain rfl : a = ascii '\r' := (List.cons.inj heq).1
      exact absurd ha (by decide)
  | cons l ls ih =>
    obtain ⟨hl, hls⟩ := List.forall_mem_cons.1 hls
    rcases ks with - | ⟨k, ks⟩
    · obtain ⟨a, t, hbytes, ha⟩ := exists_bytes_eq_cons hl
      rw [List.flatMap_cons, render, hbytes] at heq
      obtain rfl : ascii '\r' = a := (List.cons.inj heq).1
      have hcr : isTokenChar (ascii '\r') = false ∧ HeaderLine.isBlank (ascii '\r') = false := by
        decide
      exact absurd ha (by simp [hcr])
    · rw [List.flatMap_cons, List.flatMap_cons, List.append_assoc, List.append_assoc] at heq
      obtain ⟨rfl, hread, hfield, heq⟩ := eq_of_render_append_eq hl hks.1 heq
      obtain ⟨rfl, hreads, -, rfl⟩ := ih hls hks.2 heq
      refine ⟨rfl, List.forall_mem_cons.2 ⟨hread, hreads⟩, fun hempty l' hl' ↦ ?_, rfl⟩
      obtain rfl : l = l' := by simpa using hl'
      exact hfield hempty

end LegalLine

/-! ### Heads -/

/-- The head of a response: a version, a status code of three digits, a reason phrase that may be
empty, and lines the first of which starts a field. -/
structure LegalHead where
  major : UInt8
  minor : UInt8
  status : QByteArray
  reason : QByteArray
  lines : List LegalLine
  major_digit : isDigit major = true
  minor_digit : isDigit minor = true
  status_digit : ∀ b ∈ status, isDigit b = true
  status_length : status.length = 3
  reason_plain : ∀ b ∈ reason, isFieldByte b = true
  lines_legal : ∀ l ∈ lines, l.Legal
  lines_head : ∀ l ∈ lines.head?, l.IsField

namespace LegalHead

variable (h : LegalHead)

/-- The wire form of the head. -/
def render : QByteArray :=
  asciiBytes "HTTP/" ++ (h.major :: ascii '.' :: h.minor :: ascii ' ' :: (h.status ++ ascii ' ' ::
    (h.reason ++ (crlf ++ (h.lines.flatMap LegalLine.render ++ crlf)))))

/-- The status code, three digits read as a number. -/
def statusCode : ℤ := intValue h.status

/-- What the parser takes for the reason phrase. It wants one byte at least, and takes the line
break for it where there is none: the phrase then goes on to the end of the first field line. -/
def parsedReason : QByteArray :=
  if h.reason = [] then h.lines.head?.elim [] fun l ↦ crlf ++ l.bytes else h.reason

/-- The lines that are left for the header section. -/
def parsedLines : List LegalLine := if h.reason = [] then h.lines.tail else h.lines

/-- **The parser can read the head**: what it takes for the reason phrase is not empty and ASCII,
the lines that are left are readable, and the first of them starts a field. -/
structure IsRead : Prop where
  reason_ne : h.parsedReason ≠ []
  reason_ascii : ∀ b ∈ h.parsedReason, isChar b = true
  lines : ∀ l ∈ h.parsedLines, l.IsRead
  lines_head : ∀ l ∈ h.parsedLines.head?, l.IsField

instance : Decidable h.IsRead :=
  decidable_of_iff (h.parsedReason ≠ [] ∧ (∀ b ∈ h.parsedReason, isChar b = true) ∧
    (∀ l ∈ h.parsedLines, l.IsRead) ∧ ∀ l ∈ h.parsedLines.head?, l.IsField)
    ⟨fun hread ↦ ⟨hread.1, hread.2.1, hread.2.2.1, hread.2.2.2⟩,
      fun hread ↦ ⟨hread.1, hread.2, hread.3, hread.4⟩⟩

/-- The head that the parser reads. -/
def parsed : Head where
  start := .status
    { major := [h.major]
      minor := [h.minor]
      status := h.status
      reason := h.parsedReason }
  lines := h.parsedLines.map LegalLine.toHeaderLine

theorem render_ne_nil : h.render ≠ [] := by simp [render, asciiBytes]

variable {h}

theorem parsedLines_legal : ∀ l ∈ h.parsedLines, l.Legal := by
  intro l hl
  rw [parsedLines] at hl
  split_ifs at hl
  · exact h.lines_legal l (List.mem_of_mem_tail hl)
  · exact h.lines_legal l hl

/-- What is taken for the reason phrase has a carriage return at its start at most. -/
theorem ne_cr_of_mem_parsedReason : ∀ b ∈ h.parsedReason.tail, b ≠ ascii '\r' := by
  intro b hb
  rw [parsedReason] at hb
  split_ifs at hb
  · rcases hls : h.lines with - | ⟨l, ls⟩ <;> rw [hls] at hb
    · cases hb
    · have hl : l.Legal := h.lines_legal l (by rw [hls]; exact List.mem_cons_self)
      rcases List.mem_cons.1 hb with rfl | hb
      · decide
      · exact ne_of_mem_of_not_mem hb (LegalLine.cr_notMem_bytes hl)
  · exact ne_cr_of_isFieldByte (h.reason_plain b (List.mem_of_mem_tail hb))

/-- A head that is read has the bytes of what it is read as. -/
theorem render_parsed (hread : h.IsRead) : h.parsed.render = h.render := by
  have hlines := LegalLine.render_map_toHeaderLine hread.lines
  have hreason : h.parsedReason ++ (crlf ++ h.parsedLines.flatMap LegalLine.render) =
      h.reason ++ (crlf ++ h.lines.flatMap LegalLine.render) := by
    have hne := hread.reason_ne
    rw [parsedReason] at hne ⊢
    rw [parsedLines]
    split_ifs at hne ⊢ with hempty
    · obtain ⟨l, ls, hls⟩ :=
        List.exists_cons_of_ne_nil fun hnil : h.lines = [] ↦ hne (by simp [hnil])
      simp [hls, hempty, LegalLine.render]
    · rfl
  have hreason := congrArg (· ++ crlf) hreason
  simp only [List.append_assoc] at hreason
  rw [Head.render, Head.renderInit, parsed, hlines, render, ← hreason]
  simp [StartLine.render, StatusLine.render, crlf]

/-- What a head is read as is one of the heads the parser accepts. -/
theorem wellFormed_parsed (hread : h.IsRead) : h.parsed.WellFormed .response where
  start := by
    refine ⟨rfl, by simp, ?_, by simp, ?_, ?_, h.status_digit, hread.reason_ne,
      hread.reason_ascii, ne_cr_of_mem_parsedReason⟩
    · simpa [parsed] using h.major_digit
    · simpa [parsed] using h.minor_digit
    · exact List.ne_nil_of_length_eq_add_one h.status_length
  lines := LegalLine.linesWellFormed_map parsedLines_legal hread.lines (.inl hread.lines_head)

/-- The numbers of a status line, whatever follows. -/
theorem numbers_eq {l : StatusLine} (hl : l.WellFormed) {x y : QByteArray}
    (heq : asciiBytes "HTTP/" ++ (l.major ++ ascii '.' :: (l.minor ++ ascii ' ' :: (l.status ++
      ascii ' ' :: x))) = asciiBytes "HTTP/" ++ (h.major :: ascii '.' :: h.minor :: ascii ' ' ::
        (h.status ++ ascii ' ' :: y))) :
    l.major = [h.major] ∧ l.minor = [h.minor] ∧ l.status = h.status ∧ x = y := by
  have hdigits {t : QByteArray} {b : UInt8} (hb : isDigit b = false)
      (ht : ∀ d ∈ t, isDigit d = true) : b ∉ t := fun hm ↦ absurd (ht b hm) (by simp [hb])
  have hone {d : UInt8} (hd : isDigit d = true) : ∀ b ∈ [d], isDigit b = true := by simpa using hd
  have heq := List.append_cancel_left heq
  obtain ⟨hmajor, h₁⟩ := append_cons_inj (hdigits (by decide) hl.major)
    (hdigits (t := [h.major]) (by decide) (hone h.major_digit)) heq
  obtain ⟨hminor, h₂⟩ := append_cons_inj (hdigits (by decide) hl.minor)
    (hdigits (t := [h.minor]) (by decide) (hone h.minor_digit)) h₁
  obtain ⟨hstatus, h₃⟩ := append_cons_inj (hdigits (by decide) hl.status)
    (hdigits (by decide) h.status_digit) h₂
  exact ⟨hmajor, hminor, hstatus, h₃⟩

/-- **The reason phrase and the header section**: they are read in one way, if at all, unless there
is neither a phrase nor a line. -/
theorem reason_eq {l : StatusLine} (hl : l.WellFormed) {ks : List HeaderLine}
    (hks : LinesWellFormed {} ks) {x y : QByteArray}
    (heq : l.reason ++ (crlf ++ (ks.flatMap HeaderLine.render ++ (crlf ++ x))) =
      h.reason ++ (crlf ++ (h.lines.flatMap LegalLine.render ++ (crlf ++ y)))) :
    h.IsRead ∧ l.reason = h.parsedReason ∧ ks = h.parsedLines.map LegalLine.toHeaderLine ∧ x = y ∨
      h.reason = [] ∧ h.lines = [] ∧ ks.flatMap HeaderLine.render ++ (crlf ++ x) = y := by
  obtain ⟨a, t, hreason⟩ := List.exists_cons_of_ne_nil hl.reason_ne
  have ht : ascii '\r' ∉ t := fun hm ↦ hl.reason_tail _ (by simpa [hreason] using hm) rfl
  -- how it goes on once the phrase has been read
  have hread (ls : List LegalLine) (hphrase : l.reason = h.parsedReason) (hls : ls = h.parsedLines)
      (heq : ks.flatMap HeaderLine.render ++ (crlf ++ x) =
        ls.flatMap LegalLine.render ++ (crlf ++ y)) :
      h.IsRead ∧ l.reason = h.parsedReason ∧ ks = h.parsedLines.map LegalLine.toHeaderLine ∧
        x = y := by
    subst hls
    obtain ⟨hlines, hreads, hfirst, hxy⟩ :=
      LegalLine.lines_eq_of_render_append_eq parsedLines_legal hks heq
    exact ⟨⟨hphrase ▸ hl.reason_ne, hphrase ▸ hl.reason, hreads, hfirst rfl⟩, hphrase, hlines, hxy⟩
  rw [hreason] at heq
  by_cases hempty : h.reason = []
  · -- the line break is taken for the first byte of the phrase
    rw [hempty] at heq
    obtain ⟨hcr, h₁⟩ := List.cons.inj heq
    rcases t with - | ⟨c, t⟩
    · exact absurd (List.cons.inj h₁).1 (by decide)
    · obtain ⟨hlf, h₂⟩ := List.cons.inj h₁
      have ht : ascii '\r' ∉ t := fun hm ↦ ht (List.mem_cons_of_mem _ hm)
      rcases hlines : h.lines with - | ⟨first, ls⟩ <;> rw [hlines] at h₂
      · obtain ⟨-, h₃⟩ := append_cons_inj ht List.not_mem_nil h₂
        exact .inr ⟨hempty, rfl, (List.cons.inj h₃).2⟩
      · have hfirst : first.Legal := h.lines_legal first (by rw [hlines]; exact List.mem_cons_self)
        rw [List.flatMap_cons, LegalLine.render, List.append_assoc, List.append_assoc] at h₂
        obtain ⟨hbytes, h₃⟩ := append_cons_inj ht (LegalLine.cr_notMem_bytes hfirst) h₂
        refine .inl (hread ls ?_ ?_ (List.cons.inj h₃).2)
        · rw [hreason, parsedReason, if_pos hempty, hlines, hbytes, hcr, hlf]
          rfl
        · rw [parsedLines, if_pos hempty, hlines]
          rfl
  · obtain ⟨a', t', hphrase⟩ := List.exists_cons_of_ne_nil hempty
    have ht' : ascii '\r' ∉ t' := fun hm ↦
      ne_cr_of_isFieldByte (h.reason_plain _ (by rw [hphrase]; exact List.mem_cons_of_mem _ hm)) rfl
    rw [hphrase] at heq
    obtain ⟨ha, h₁⟩ := List.cons.inj heq
    obtain ⟨htail, h₂⟩ := append_cons_inj ht ht' h₁
    refine .inl (hread h.lines ?_ ?_ (List.cons.inj h₂).2)
    · rw [hreason, parsedReason, if_neg hempty, hphrase, ha, htail]
    · rw [parsedLines, if_neg hempty]

/-- **What the parser reads from the bytes of a head**, if anything, is its `parsed`: unless there
is neither a reason phrase nor a line, when it reads more than the head. -/
theorem eq_parsed_of_render_append_eq {k : Head} (hk : k.WellFormed .response) {x y : QByteArray}
    (heq : k.render ++ x = h.render ++ y) :
    h.IsRead ∧ k = h.parsed ∧ x = y ∨
      h.reason = [] ∧ h.lines = [] ∧ h.render.length < k.render.length := by
  rcases k with ⟨l | l, ks⟩
  · exact absurd hk.start.1 (by simp)
  have hl : l.WellFormed := hk.start.2
  have hks : LinesWellFormed {} ks := hk.lines
  have heq' := heq
  simp only [Head.render, Head.renderInit, StartLine.render, StatusLine.render, render,
    List.append_assoc, List.cons_append] at heq'
  obtain ⟨hmajor, hminor, hstatus, hrest⟩ := numbers_eq hl heq'
  obtain ⟨hread, hreason, hlines, hxy⟩ | ⟨hreason, hlines, hlonger⟩ := reason_eq hl hks hrest
  · refine .inl ⟨hread, ?_, hxy⟩
    rw [parsed, ← hreason, ← hmajor, ← hminor, ← hstatus, ← hlines]
  · refine .inr ⟨hreason, hlines, ?_⟩
    have hlength := congrArg List.length heq
    rw [← hlonger] at hlength
    simp [crlf] at hlength ⊢
    omega

end LegalHead

end HttpMessageParser

end Amanuensis
