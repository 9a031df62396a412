import Amanuensis.Qt.Text

/-!
# Messages

`Headers`, `HttpMessage` and the formatting of a request. A `QMultiHash` is the list of its
entries, most recently inserted first, which is the order in which `values` lists the entries of a
key; the names are kept apart in insertion order, as in the source.

Header names reach `canonicalize` from the parser, which admits ASCII only, or as literals of the
source; letters are therefore the ASCII letters.
-/

namespace Amanuensis

namespace QChar

/-- `QChar::isLetter`, on ASCII. -/
def isLetter (c : QChar) : Bool :=
  (ofChar 'A' ≤ c ∧ c ≤ ofChar 'Z') ∨ (ofChar 'a' ≤ c ∧ c ≤ ofChar 'z')

/-- `QChar::toUpper`, on ASCII. -/
def toUpper (c : QChar) : QChar := if ofChar 'a' ≤ c ∧ c ≤ ofChar 'z' then c - 32 else c

/-- `QChar::toLower`, on ASCII. -/
def toLower (c : QChar) : QChar := if ofChar 'A' ≤ c ∧ c ≤ ofChar 'Z' then c + 32 else c

end QChar

/-! ### Headers -/

/-- The header collection of a message. -/
structure Headers where
  /-- The entries of the hash, most recently inserted first. -/
  values : List (QString × QString) := []
  insertionOrder : List QString := []
  deriving DecidableEq, Repr

namespace Headers

/-- The loop of `canonicalize`: `first` says whether the next letter starts a word. -/
def canonicalizeFrom (first : Bool) : QString → QString
  | [] => []
  | c :: name =>
    if c.isLetter then
      if first then c.toUpper :: canonicalizeFrom false name
      else c.toLower :: canonicalizeFrom first name
    else if c = QChar.ofChar '-' then c :: canonicalizeFrom true name
    else c :: canonicalizeFrom first name

/-- The canonical spelling of a header name: `Like-This`. -/
def canonicalize (name : QString) : QString := canonicalizeFrom true name

/-- There is no value. -/
def empty (h : Headers) : Bool := h.values.isEmpty

/-- The number of values. -/
def size (h : Headers) : ℕ := h.values.length

/-- Add a value. Where the name is new it comes last in the order. -/
def insert (h : Headers) (name value : QString) : Headers :=
  let canon := canonicalize name
  { values := (canon, value) :: h.values
    insertionOrder :=
      if h.values.any fun entry ↦ entry.1 = canon then h.insertionOrder
      else h.insertionOrder ++ [canon] }

/-- The values of a name, the most recent one first. -/
def findByName (h : Headers) (name : QString) : List QString :=
  (h.values.filter fun entry ↦ entry.1 = canonicalize name).map Prod.snd

/-- The names in the order in which they were first inserted. -/
def names (h : Headers) : List QString := h.insertionOrder

end Headers

/-! ### Messages -/

/-- A request or a response. -/
structure HttpMessage where
  method : QString := []
  uri : QString := []
  statusCode : ℤ := 0
  statusMessage : QString := []
  majorVersion : ℤ := 0
  minorVersion : ℤ := 0
  headers : Headers := {}
  body : QByteArray := []
  deriving DecidableEq, Repr

namespace Response

/-- `Response::major_version`. -/
def majorVersion (message : HttpMessage) : ℤ := message.majorVersion

/-- `Response::minor_version`, which returns the major version. -/
def minorVersion (message : HttpMessage) : ℤ := message.majorVersion

end Response

namespace Request

/-- The bytes a request is forwarded as. -/
def format (message : HttpMessage) : QByteArray :=
  QString.toLatin1 <|
    message.method ++ QString.ofString " " ++ message.uri ++ QString.ofString " HTTP/" ++
      QString.number message.majorVersion ++ QString.ofString "." ++
      QString.number message.minorVersion ++ QString.ofString "\r\n" ++
    (message.headers.names.flatMap fun name ↦
      name ++ QString.ofString ": " ++
        (QString.ofString ", ").intercalate (message.headers.findByName name) ++
        QString.ofString "\r\n") ++
    QString.ofString "\r\n" ++
    if message.body.length > 0 then QString.fromUtf8 message.body else []

end Request

end Amanuensis
