import Amanuensis.Http.HeaderOrder

/-!
# Field lines and what is read off them

`PlainField` is a field line the parser reads, with what makes it one. A list of them stores its
entries in the header collection (`headers_lines`), and the framing is read off the values of two
names: any of the `Transfer-Encoding` values may list `chunked`, and of the `Content-Length` values
only the last one received counts (`framing_insertAll`), because lookup lists the most recent first.
-/

namespace Amanuensis

namespace HttpMessageParser

/-! ### Plain fields -/

/-- A field line `Name: value`. -/
structure PlainField where
  name : QByteArray
  value : QByteArray
  name_ne : name ≠ []
  name_token : ∀ b ∈ name, isTokenChar b = true
  value_plain : ∀ b ∈ value, (!isCtl b) = true

namespace PlainField

/-- The line of the field. -/
def line (f : PlainField) : HeaderLine := .field f.name f.value

/-- What the line delivers. -/
def entry (f : PlainField) : QString × QString :=
  (QString.fromLatin1 f.name, QString.fromLatin1 f.value)

theorem wellFormed_line (f : PlainField) (h : Headers) : f.line.WellFormed h :=
  ⟨f.name_ne, f.name_token, f.value_plain⟩

end PlainField

theorem linesWellFormed_lines (fields : List PlainField) (h : Headers) :
    LinesWellFormed h (fields.map PlainField.line) := by
  induction fields generalizing h with
  | nil => trivial
  | cons f fields ih => exact ⟨f.wellFormed_line h, ih _⟩

theorem filterMap_entry_lines (fields : List PlainField) :
    (fields.map PlainField.line).filterMap HeaderLine.entry = fields.map PlainField.entry := by
  rw [List.filterMap_map, ← List.filterMap_eq_map]
  rfl

/-- **Plain fields are stored as they are.** -/
theorem headers_lines (start : StartLine) (fields : List PlainField) :
    (Head.mk start (fields.map PlainField.line)).headers =
      Headers.insertAll {} (fields.map PlainField.entry) := by
  rw [Head.headers, Headers.foldl_store_eq_insertAll, filterMap_entry_lines]

/-! ### The framing of a list of fields -/

/-- The values of `Transfer-Encoding`, in the order received. -/
def codingValues (fields : List (QString × QString)) : List QString :=
  Headers.valuesOf fields (QString.ofString "Transfer-Encoding")

/-- The values of `Content-Length`, in the order received. -/
def lengthValues (fields : List (QString × QString)) : List QString :=
  Headers.valuesOf fields (QString.ofString "Content-Length")

/-- The framing by the `Content-Length` value that is looked at. -/
def lengthFraming : Option QString → Framing
  | none => .none
  | some value =>
    match value.toULongLong with
    | none => .malformed
    | some length => if length = 0 then .none else .fixed length

/-- **The framing of a list of fields.** -/
theorem framing_insertAll (fields : List (QString × QString)) :
    framing (Headers.insertAll {} fields) =
      if (codingValues fields).any listsChunked = true then .chunked
      else lengthFraming (lengthValues fields).getLast? := by
  have hcodings : (Headers.insertAll {} fields).findByName (QString.ofString "Transfer-Encoding") =
      (codingValues fields).reverse := Headers.findByName_insertAll fields _
  have hlengths : (Headers.insertAll {} fields).findByName (QString.ofString "Content-Length") =
      (lengthValues fields).reverse := Headers.findByName_insertAll fields _
  rw [framing, hcodings, hlengths, List.any_reverse, ← List.head?_reverse]
  cases (lengthValues fields).reverse <;> rfl

/-- Chunked framing is decided by the codings alone. -/
theorem framing_insertAll_eq_chunked_iff (fields : List (QString × QString)) :
    framing (Headers.insertAll {} fields) = .chunked ↔
      (codingValues fields).any listsChunked = true := by
  rw [framing_eq_chunked_iff, Headers.findByName_insertAll, List.any_reverse]
  rfl

end HttpMessageParser

end Amanuensis
