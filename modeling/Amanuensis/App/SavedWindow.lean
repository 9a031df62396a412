import Amanuensis.App.SavedRows
import Amanuensis.Foundation.Runs

/-!
# Saving the window

`MainWindow::saveTransactionFile` removes the file if it is there, and adds the transactions of the
list one after another. Transactions bring their numbers, which are a primary key; the messages get
theirs from the database.

So transactions are told apart by their numbers and messages by theirs, and as long as each message
gets a number of its own, below 2^31 (`Numbered`), a file says which transactions have been added
since it was last removed, in which order, and what they were (`loadsBack_of_run`): whatever
statements fail, and however often the file is saved. Only the minor version of a response is lost.
-/

open LabelledSystem

namespace Amanuensis

/-! ### Reading a file -/

/-- A message, as a file has it. -/
inductive LoadedMessage
  | request (method uri : QString) (majorVersion minorVersion : ℤ) (body : QByteArray)
      (headers : List (QString × QString))
  | response (statusCode : ℤ) (statusMessage : QString) (majorVersion minorVersion : ℤ)
      (body : QByteArray) (headers : List (QString × QString))
  deriving DecidableEq, Repr

/-- A transaction as it is read from the file. -/
structure LoadedTransaction where
  id : ℤ
  messages : List LoadedMessage
  deriving DecidableEq, Repr

/-- A transaction, as it should be found in a file. -/
def SavedTransaction.loaded (tx : SavedTransaction) : LoadedTransaction where
  id := tx.id
  messages :=
    [.request tx.request.method tx.request.uri tx.request.majorVersion tx.request.minorVersion
        tx.request.body tx.request.headers.pairs,
      -- the major version stands for both
      .response tx.response.statusCode tx.response.statusMessage tx.response.majorVersion
        tx.response.majorVersion tx.response.body tx.response.headers.pairs]

/-- The transaction that a message belongs to. -/
def Row.txId? : Row → Option ℤ
  | .request _ txId .. | .response _ txId .. => some txId
  | _ => none

/-- The number of a message. -/
def Row.messageId? : Row → Option ℤ
  | .request id .. | .response id .. => some id
  | _ => none

namespace TransactionFile

/-- A message, with the headers that some rows have for it. -/
def loadMessage (rows : List Row) : Row → Option LoadedMessage
  | .request id _ method uri majorVersion minorVersion body =>
    some (.request method uri majorVersion minorVersion body (headersOf id rows))
  | .response id _ statusCode statusMessage majorVersion minorVersion body =>
    some (.response statusCode statusMessage majorVersion minorVersion body (headersOf id rows))
  | _ => none

/-- The messages of a transaction. -/
def loadMessages (txId : ℤ) (rows : List Row) : List LoadedMessage :=
  (rows.filter fun row ↦ row.txId? = some txId).filterMap (loadMessage rows)

/-- A transaction, with the messages that some rows have for it. -/
def loadTransaction (rows : List Row) : Row → Option LoadedTransaction
  | .tx id => some ⟨id, loadMessages id rows⟩
  | _ => none

/-- **The transactions in a file.** -/
def load (rows : List Row) : List LoadedTransaction := rows.filterMap (loadTransaction rows)

/-! ### Saving -/

/-- A call on a file: the number of a transaction is a primary key, so that it is used once. -/
def Call.keyed (c : Call) (file : Session Row) : Call :=
  { c with
    outcomes :=
      { c.outcomes with execTx := c.outcomes.execTx && decide (.tx c.tx.id ∉ file.rows) } }

/-- **The numbers that the database gives to the messages of a call**: no message of the file has
them, and they fit into an `int`. -/
structure Numbered (c : Call) (rows : List Row) : Prop where
  request_fresh : ∀ row ∈ rows, row.messageId? ≠ some c.outcomes.requestId
  response_fresh : ∀ row ∈ rows, row.messageId? ≠ some c.outcomes.responseId
  ne : c.outcomes.requestId ≠ c.outcomes.responseId
  request_range : 0 < c.outcomes.requestId ∧ c.outcomes.requestId < 2 ^ 31
  response_range : 0 < c.outcomes.responseId ∧ c.outcomes.responseId < 2 ^ 31

instance (c : Call) (rows : List Row) : Decidable (Numbered c rows) :=
  decidable_of_iff
    ((∀ row ∈ rows, row.messageId? ≠ some c.outcomes.requestId) ∧
      (∀ row ∈ rows, row.messageId? ≠ some c.outcomes.responseId) ∧
      c.outcomes.requestId ≠ c.outcomes.responseId ∧
      (0 < c.outcomes.requestId ∧ c.outcomes.requestId < 2 ^ 31) ∧
      0 < c.outcomes.responseId ∧ c.outcomes.responseId < 2 ^ 31)
    ⟨fun h ↦ ⟨h.1, h.2.1, h.2.2.1, h.2.2.2.1, h.2.2.2.2⟩,
      fun h ↦ ⟨h.request_fresh, h.response_fresh, h.ne, h.request_range, h.response_range⟩⟩

/-- The loop of `saveTransactionFile`. -/
def addTransactions (calls : List Call) (file : Session Row) : Session Row :=
  calls.foldl (fun file c ↦ (c.keyed file).save file) file

/-- The transactions of the calls that succeed. -/
def added : List Call → Session Row → List SavedTransaction
  | [], _ => []
  | c :: calls, file =>
    (if (c.keyed file).succeeds file then [c.tx] else []) ++
      added calls ((c.keyed file).save file)

/-- The messages of each call that succeeds have been numbered. -/
def AllNumbered : List Call → Session Row → Prop
  | [], _ => True
  | c :: calls, file =>
    ((c.keyed file).succeeds file = true → Numbered c file.rows) ∧
      AllNumbered calls ((c.keyed file).save file)

instance decidableAllNumbered : ∀ calls file, Decidable (AllNumbered calls file)
  | [], _ => inferInstanceAs (Decidable True)
  | c :: calls, file =>
    have := decidableAllNumbered calls ((c.keyed file).save file)
    inferInstanceAs (Decidable (_ ∧ _))

/-- A call of `saveTransactionFile`: whether the old file is gone, which nobody checks, and the
calls made on the file that is opened. -/
structure Save where
  removed : Bool := true
  calls : List Call

namespace Save

/-- The rows there are when the file has been opened. -/
def opened (save : Save) (rows : List Row) : List Row := if save.removed then [] else rows

/-- The rows there are when the file has been closed: what is not committed is lost. -/
def saveTransactionFile (save : Save) (rows : List Row) : List Row :=
  (addTransactions save.calls { rows := save.opened rows }).rows

/-- The transactions that are added. -/
def saved (save : Save) (rows : List Row) : List SavedTransaction :=
  added save.calls { rows := save.opened rows }

/-- The messages that are added have been numbered. -/
def Numbers (save : Save) (rows : List Row) : Prop :=
  AllNumbered save.calls { rows := save.opened rows }

instance (save : Save) (rows : List Row) : Decidable (save.Numbers rows) :=
  inferInstanceAs (Decidable (AllNumbered _ _))

end Save

/-- **The file**, as it is saved again and again. At first there is none. -/
def files : LabelledSystem (List Row) Save where
  init rows := rows = []
  step rows save rows' := save.saveTransactionFile rows = rows'

/-- The transactions added since the file was last removed. -/
def contents (h : List (Move (List Row) Save)) : List SavedTransaction :=
  h.foldl (fun txs t ↦ (if t.label.removed then [] else txs) ++ t.label.saved t.source) []

/-! ### Rows that belong together -/

variable {xs ys rows : List Row} {row : Row} {c : Call} {file : Session Row} {id : ℤ}

/-- No message of `ys` belongs to a transaction in `xs`, and no header to a message in `xs`. -/
structure Apart (xs ys : List Row) : Prop where
  messages : ∀ row ∈ ys, ∀ txId, row.txId? = some txId → .tx txId ∉ xs
  headers : ∀ id name value, .header id name value ∈ ys →
    ∀ row ∈ xs, row.messageId? ≠ some id

theorem headersOf_eq_nil (hnone : ∀ name value, .header id name value ∉ rows) :
    headersOf id rows = [] := by
  rw [headersOf, List.filterMap_eq_nil_iff]
  intro row hrow
  cases row with
  | header messageId name value =>
    refine if_neg fun heq ↦ ?_
    subst heq
    exact hnone _ _ hrow
  | _ => rfl

theorem filter_txId_eq_nil (hnone : ∀ row ∈ rows, row.txId? ≠ some id) :
    rows.filter (fun row ↦ row.txId? = some id) = [] := by
  rw [List.filter_eq_nil_iff]
  exact fun row hrow ↦ by simpa using hnone row hrow

/-- All messages and all headers that belong to a part of the rows are in that part. -/
structure Owns (part rows : List Row) : Prop where
  messages : ∀ id, .tx id ∈ part →
    rows.filter (fun row ↦ row.txId? = some id) = part.filter fun row ↦ row.txId? = some id
  headers : ∀ row ∈ part, ∀ id, row.messageId? = some id → headersOf id rows = headersOf id part

theorem Apart.owns_left (h : Apart xs ys) : Owns xs (xs ++ ys) where
  messages id hid := by
    have hnone : ∀ row ∈ ys, row.txId? ≠ some id := fun row hrow htx ↦
      h.messages row hrow id htx hid
    rw [List.filter_append, filter_txId_eq_nil hnone, List.append_nil]
  headers row hrow id hid := by
    rw [headersOf_append, headersOf_eq_nil fun name value hmem ↦ h.headers id name value hmem row
      hrow hid, List.append_nil]

theorem Apart.owns_right (h : Apart ys xs) : Owns ys (xs ++ ys) where
  messages id hid := by
    have hnone : ∀ row ∈ xs, row.txId? ≠ some id := fun row hrow htx ↦
      h.messages row hrow id htx hid
    rw [List.filter_append, filter_txId_eq_nil hnone, List.nil_append]
  headers row hrow id hid := by
    rw [headersOf_append, headersOf_eq_nil fun name value hmem ↦ h.headers id name value hmem row
      hrow hid, List.nil_append]

theorem Owns.loadMessage_eq (h : Owns xs rows) (hrow : row ∈ xs) :
    loadMessage rows row = loadMessage xs row := by
  cases row with
  | request | response => rw [loadMessage, loadMessage, h.headers _ hrow _ rfl]
  | tx | header => rfl

theorem Owns.loadTransaction_eq (h : Owns xs rows) (hrow : row ∈ xs) :
    loadTransaction rows row = loadTransaction xs row := by
  cases row with
  | tx id =>
    rw [loadTransaction, loadTransaction, loadMessages, h.messages id hrow, loadMessages]
    exact congrArg (fun messages ↦ some (LoadedTransaction.mk id messages))
      (List.filterMap_congr fun row hrow ↦ h.loadMessage_eq (List.mem_of_mem_filter hrow))
  | _ => rfl

/-- **Rows that are apart are read apart.** -/
theorem load_append (hxs : Apart xs ys) (hys : Apart ys xs) :
    load (xs ++ ys) = load xs ++ load ys := by
  rw [load, List.filterMap_append]
  congr 1
  · exact List.filterMap_congr fun row hrow ↦ hxs.owns_left.loadTransaction_eq hrow
  · exact List.filterMap_congr fun row hrow ↦ hys.owns_right.loadTransaction_eq hrow

/-! ### Numbers of messages -/

theorem toInt_of_lt (hpos : 0 ≤ id) (hlt : id < 2 ^ 31) : toInt id = id := by
  rw [toInt, Int.bmod_eq_of_le] <;> omega

/-! ### What a call adds to a file -/

/-- **A file in order**: every message belongs to a transaction and every header to a message. -/
structure Filed (rows : List Row) : Prop where
  messages : ∀ row ∈ rows, ∀ txId, row.txId? = some txId → .tx txId ∈ rows
  headers : ∀ id name value, .header id name value ∈ rows →
    ∃ row ∈ rows, row.messageId? = some id

theorem filed_nil : Filed [] :=
  ⟨fun _ hrow ↦ absurd hrow List.not_mem_nil, fun _ _ _ hrow ↦ absurd hrow List.not_mem_nil⟩

theorem Numbered.toInt_requestId (hc : Numbered c rows) :
    toInt c.outcomes.requestId = c.outcomes.requestId :=
  toInt_of_lt (Int.le_of_lt hc.request_range.1) hc.request_range.2

theorem Numbered.toInt_responseId (hc : Numbered c rows) :
    toInt c.outcomes.responseId = c.outcomes.responseId :=
  toInt_of_lt (Int.le_of_lt hc.response_range.1) hc.response_range.2

theorem exists_of_mem_headerRows {headers : Headers} (hrow : row ∈ headerRows id headers) :
    ∃ name value, row = .header id name value := by
  rw [headerRows_eq] at hrow
  obtain ⟨entry, -, rfl⟩ := List.mem_map.1 hrow
  exact ⟨_, _, rfl⟩

/-- A row that a call inserts. -/
theorem mem_inserted_cases (hrow : row ∈ c.inserted) :
    row = .tx c.tx.id ∨ row = requestRow c.outcomes.requestId c.tx ∨
      row = responseRow c.outcomes.responseId c.tx ∨
      ∃ id name value, row = .header id name value ∧
        (id = toInt c.outcomes.requestId ∨ id = toInt c.outcomes.responseId) := by
  have hcases : row = .tx c.tx.id ∨ row = requestRow c.outcomes.requestId c.tx ∨
      row ∈ headerRows (toInt c.outcomes.requestId) c.tx.request.headers ∨
      row = responseRow c.outcomes.responseId c.tx ∨
      row ∈ headerRows (toInt c.outcomes.responseId) c.tx.response.headers := by
    simpa [Call.inserted, or_assoc] using hrow
  rcases hcases with htx | hrequest | hheaders | hresponse | hheaders
  · exact .inl htx
  · exact .inr (.inl hrequest)
  · obtain ⟨name, value, heq⟩ := exists_of_mem_headerRows hheaders
    exact .inr (.inr (.inr ⟨_, name, value, heq, .inl rfl⟩))
  · exact .inr (.inr (.inl hresponse))
  · obtain ⟨name, value, heq⟩ := exists_of_mem_headerRows hheaders
    exact .inr (.inr (.inr ⟨_, name, value, heq, .inr rfl⟩))

theorem txId_of_mem_inserted {txId : ℤ} (hrow : row ∈ c.inserted)
    (htx : row.txId? = some txId) : txId = c.tx.id := by
  rcases mem_inserted_cases hrow with rfl | rfl | rfl | ⟨_, _, _, rfl, -⟩
  · exact absurd htx (by simp [Row.txId?])
  · exact (Option.some.inj htx).symm
  · exact (Option.some.inj htx).symm
  · exact absurd htx (by simp [Row.txId?])

theorem messageId_of_mem_inserted (hrow : row ∈ c.inserted) (hid : row.messageId? = some id) :
    id = c.outcomes.requestId ∨ id = c.outcomes.responseId := by
  rcases mem_inserted_cases hrow with rfl | rfl | rfl | ⟨_, _, _, rfl, -⟩
  · exact absurd hid (by simp [Row.messageId?])
  · exact .inl (Option.some.inj hid).symm
  · exact .inr (Option.some.inj hid).symm
  · exact absurd hid (by simp [Row.messageId?])

theorem header_of_mem_inserted (hc : Numbered c rows) {name value : QString}
    (hrow : .header id name value ∈ c.inserted) :
    id = c.outcomes.requestId ∨ id = c.outcomes.responseId := by
  rcases mem_inserted_cases hrow with heq | heq | heq | ⟨_, _, _, heq, hid⟩
  · exact absurd heq (by simp)
  · exact absurd heq (by simp [requestRow])
  · exact absurd heq (by simp [responseRow])
  · rw [hc.toInt_requestId, hc.toInt_responseId] at hid
    rwa [(Row.header.inj heq).1]

theorem tx_mem_inserted {txId : ℤ} (hrow : .tx txId ∈ c.inserted) : txId = c.tx.id := by
  rcases mem_inserted_cases hrow with heq | heq | heq | ⟨_, _, _, heq, -⟩
  · exact Row.tx.inj heq
  · exact absurd heq (by simp [requestRow])
  · exact absurd heq (by simp [responseRow])
  · exact absurd heq (by simp)

theorem filterMap_headerRows {β : Type*} {f : Row → Option β} {headers : Headers}
    (hf : ∀ name value, f (.header id name value) = none) :
    (headerRows id headers).filterMap f = [] := by
  rw [List.filterMap_eq_nil_iff]
  intro row hrow
  obtain ⟨name, value, rfl⟩ := exists_of_mem_headerRows hrow
  exact hf name value

/-- Rows that tell the messages from the headers, seen one by one. -/
theorem filterMap_inserted {β : Type*} {f : Row → Option β}
    (hf : ∀ id name value, f (.header id name value) = none) :
    c.inserted.filterMap f =
      (f (.tx c.tx.id)).toList ++ (f (requestRow c.outcomes.requestId c.tx)).toList ++
        (f (responseRow c.outcomes.responseId c.tx)).toList := by
  have hsingle (row : Row) : [row].filterMap f = (f row).toList := by
    cases hrow : f row <;> simp [hrow]
  have hpair (row row' : Row) : [row, row'].filterMap f = (f row).toList ++ (f row').toList := by
    rw [← hsingle, ← hsingle, ← List.filterMap_append]
    rfl
  rw [Call.inserted, List.filterMap_append, List.filterMap_append, List.filterMap_append,
    filterMap_headerRows (hf _), filterMap_headerRows (hf _), List.append_nil, List.append_nil,
    hsingle, hpair]

/-- **What a call adds is read as its transaction.** -/
theorem load_inserted (hc : Numbered c rows) : load c.inserted = [c.tx.loaded] := by
  have hrequest : headersOf c.outcomes.requestId c.inserted = c.tx.request.headers.pairs := by
    rw [headersOf_inserted, headersOf_headerRows, headersOf_headerRows, hc.toInt_requestId,
      hc.toInt_responseId, if_pos rfl, if_neg hc.ne.symm, List.append_nil]
  have hresponse : headersOf c.outcomes.responseId c.inserted = c.tx.response.headers.pairs := by
    rw [headersOf_inserted, headersOf_headerRows, headersOf_headerRows, hc.toInt_requestId,
      hc.toInt_responseId, if_neg hc.ne, if_pos rfl, List.nil_append]
  have hmessages : loadMessages c.tx.id c.inserted = c.tx.loaded.messages := by
    rw [loadMessages, ← List.filterMap_eq_filter, List.filterMap_filterMap,
      filterMap_inserted fun id name value ↦ by simp [Row.txId?]]
    simp [Row.txId?, requestRow, responseRow, loadMessage, hrequest, hresponse,
      SavedTransaction.loaded, Response.majorVersion, Response.minorVersion]
  have htx : loadTransaction c.inserted (.tx c.tx.id) = some c.tx.loaded := by
    rw [loadTransaction, hmessages]
    rfl
  rw [load, filterMap_inserted fun _ _ _ ↦ rfl, htx]
  rfl

/-- The rows of a call with new numbers are apart from those of a file in order, and with them the
file is in order. -/
theorem Filed.append_inserted (hrows : Filed rows) (hc : Numbered c rows)
    (htx : .tx c.tx.id ∉ rows) :
    Apart rows c.inserted ∧ Apart c.inserted rows ∧ Filed (rows ++ c.inserted) := by
  have hids : ∀ row ∈ rows, ∀ id, row.messageId? = some id →
      id ≠ c.outcomes.requestId ∧ id ≠ c.outcomes.responseId := by
    rintro row hrow id hid
    exact ⟨fun heq ↦ hc.request_fresh row hrow (heq ▸ hid),
      fun heq ↦ hc.response_fresh row hrow (heq ▸ hid)⟩
  have htxMem : .tx c.tx.id ∈ c.inserted := by simp [Call.inserted]
  have hrequestMem : requestRow c.outcomes.requestId c.tx ∈ c.inserted := by simp [Call.inserted]
  have hresponseMem : responseRow c.outcomes.responseId c.tx ∈ c.inserted := by
    simp [Call.inserted]
  refine ⟨⟨?_, ?_⟩, ⟨?_, ?_⟩, ⟨?_, ?_⟩⟩
  · intro row hrow txId htxId
    rwa [txId_of_mem_inserted hrow htxId]
  · intro id name value hrow row hmem hid
    obtain ⟨hrequest, hresponse⟩ := hids row hmem id hid
    exact (header_of_mem_inserted hc hrow).elim hrequest hresponse
  · intro row hrow txId htxId hmem
    obtain rfl := tx_mem_inserted hmem
    exact htx (hrows.messages row hrow _ htxId)
  · intro id name value hrow row hmem hid
    obtain ⟨row', hrow', hid'⟩ := hrows.headers id name value hrow
    obtain ⟨hrequest, hresponse⟩ := hids row' hrow' id hid'
    exact (messageId_of_mem_inserted hmem hid).elim hrequest hresponse
  · intro row hrow txId htxId
    rcases List.mem_append.1 hrow with hrow | hrow
    · exact List.mem_append_left _ (hrows.messages row hrow txId htxId)
    · rw [txId_of_mem_inserted hrow htxId]
      exact List.mem_append_right _ htxMem
  · intro id name value hrow
    rcases List.mem_append.1 hrow with hrow | hrow
    · obtain ⟨row, hmem, hid⟩ := hrows.headers id name value hrow
      exact ⟨row, List.mem_append_left _ hmem, hid⟩
    · rcases header_of_mem_inserted hc hrow with rfl | rfl
      · exact ⟨_, List.mem_append_right _ hrequestMem, rfl⟩
      · exact ⟨_, List.mem_append_right _ hresponseMem, rfl⟩

/-! ### Calls one after another -/

/-- A call adds its rows, or leaves those that are committed. -/
theorem rows_save (c : Call) (file : Session Row) :
    (c.succeeds file = true ∧ c.reachesCommit = true ∧
        (c.save file).rows = file.rows ++ c.inserted) ∨
      (c.succeeds file = false ∧ (c.save file).rows = file.rows) := by
  by_cases hopen : file.working = none
  · obtain ⟨message, heq⟩ := guarded_addTransaction hopen c
    rw [Call.succeeds, Call.save, heq]
    cases c.reachesCommit with
    | false => exact .inr ⟨rfl, rfl⟩
    | true =>
      cases c.outcomes.commit with
      | false => exact .inr ⟨rfl, rfl⟩
      | true => exact .inl ⟨rfl, rfl, rfl⟩
  · have hfails : addTransaction c.tx c.outcomes file =
        .error (file, "Failed to begain a transaction") := Session.begin_bind_of_open hopen
    rw [Call.succeeds, Call.save, hfails]
    exact .inr ⟨rfl, rfl⟩

theorem reachesCommit_keyed (c : Call) (file : Session Row) :
    (c.keyed file).reachesCommit =
      (c.reachesCommit && decide (.tx c.tx.id ∉ file.rows)) := by
  by_cases htx : .tx c.tx.id ∈ file.rows
  · simp [Call.reachesCommit, Call.keyed, htx]
  · simp [Call.reachesCommit, Call.keyed, htx]

/-- A transaction is in a file if its row is. -/
theorem tx_mem_iff : .tx id ∈ rows ↔ id ∈ (load rows).map LoadedTransaction.id := by
  constructor
  · intro hmem
    exact List.mem_map.2 ⟨_, List.mem_filterMap.2 ⟨_, hmem, rfl⟩, rfl⟩
  · intro hmem
    obtain ⟨tx, htx, rfl⟩ := List.mem_map.1 hmem
    obtain ⟨row, hrow, hload⟩ := List.mem_filterMap.1 htx
    cases row with
    | tx id =>
      obtain rfl := Option.some.inj hload
      exact hrow
    | _ => exact absurd hload (by simp [loadTransaction])

/-- What a file says of the transactions that should be in it. -/
structure Holds (txs : List SavedTransaction) (rows : List Row) : Prop where
  filed : Filed rows
  rows : load rows = txs.map SavedTransaction.loaded
  once : (txs.map SavedTransaction.id).Nodup

theorem holds_nil : Holds [] [] := ⟨filed_nil, rfl, List.nodup_nil⟩

theorem Holds.tx_mem_iff {txs : List SavedTransaction} (h : Holds txs rows) :
    .tx id ∈ rows ↔ id ∈ txs.map SavedTransaction.id := by
  rw [TransactionFile.tx_mem_iff, h.rows, List.map_map]
  rfl

/-- **One call**: the transaction is added to what the file holds, or the file is as it was. -/
theorem Holds.save {txs : List SavedTransaction} (h : Holds txs file.rows)
    (hnumbered : (c.keyed file).succeeds file = true → Numbered c file.rows) :
    Holds (txs ++ if (c.keyed file).succeeds file then [c.tx] else [])
      ((c.keyed file).save file).rows := by
  rcases rows_save (c.keyed file) file with ⟨hs, hcommit, hrows⟩ | ⟨hs, hrows⟩
  · rw [reachesCommit_keyed, Bool.and_eq_true, decide_eq_true_iff] at hcommit
    have hnumbered : Numbered c file.rows := hnumbered hs
    have hinserted : (c.keyed file).inserted = c.inserted := rfl
    obtain ⟨hafter, hbefore, hfiled⟩ := h.filed.append_inserted hnumbered hcommit.2
    rw [hs, if_pos rfl, hrows, hinserted]
    refine ⟨hfiled, ?_, ?_⟩
    · rw [load_append hafter hbefore, h.rows, load_inserted hnumbered, List.map_append]
      rfl
    · rw [List.map_append]
      refine List.nodup_append.2 ⟨h.once, List.nodup_singleton _, fun id hid id' hid' heq ↦ ?_⟩
      rw [List.mem_singleton.1 hid'] at heq
      subst heq
      exact hcommit.2 (h.tx_mem_iff.2 hid)
  · rw [hs, if_neg Bool.false_ne_true, List.append_nil, hrows]
    exact h

/-- **The loop** adds the transactions of the calls that succeed. -/
theorem Holds.addTransactions {txs : List SavedTransaction} {calls : List Call}
    (h : Holds txs file.rows) (hnumbered : AllNumbered calls file) :
    Holds (txs ++ added calls file) (addTransactions calls file).rows := by
  induction calls generalizing txs file with
  | nil =>
    rw [added, List.append_nil]
    exact h
  | cons c calls ih =>
    obtain ⟨hc, hrest⟩ := hnumbered
    rw [added, ← List.append_assoc]
    exact ih (h.save hc) hrest

/-! ### Saving again and again -/

theorem Holds.saveTransactionFile {txs : List SavedTransaction} {save : Save}
    (h : Holds txs rows) (hnumbers : save.Numbers rows) :
    Holds ((if save.removed then [] else txs) ++ save.saved rows)
      (save.saveTransactionFile rows) := by
  have hopened : Holds (if save.removed then [] else txs) (save.opened rows) := by
    rw [Save.opened]
    split_ifs
    · exact holds_nil
    · exact h
  rw [Save.saved, Save.saveTransactionFile]
  refine Holds.addTransactions ?_ hnumbers
  exact hopened

theorem contents_append (h : List (Move (List Row) Save)) (t : Move (List Row) Save) :
    contents (h ++ [t]) =
      (if t.label.removed then [] else contents h) ++ t.label.saved t.source :=
  List.foldl_append

theorem holds_of_run {h : List (Move (List Row) Save)} (hrun : files.Run h rows)
    (hnumbers : ∀ t ∈ h, t.label.Numbers t.source) : Holds (contents h) rows := by
  refine hrun.history_induction (I := fun h rows ↦ Holds (contents h) rows)
    (P := fun t ↦ t.label.Numbers t.source) (fun rows hrows ↦ ?_)
    (fun h rows save rows' _ ih hstep hnumbers ↦ ?_) hnumbers
  · obtain rfl : rows = [] := hrows
    exact holds_nil
  · obtain rfl : save.saveTransactionFile rows = rows' := hstep
    rw [contents_append]
    exact ih.saveTransactionFile hnumbers

/-- No statement of the call fails of its own accord. -/
def Call.Faultless (c : Call) : Prop := c.reachesCommit = true ∧ c.outcomes.commit = true

instance : DecidablePred Call.Faultless := fun _ ↦ inferInstanceAs (Decidable (_ ∧ _))

/-- A call in which nothing fails adds its transaction, unless its number is taken. -/
theorem save_of_faultless (hopen : file.working = none) (hc : c.Faultless) :
    (.tx c.tx.id ∉ file.rows ∧ (c.keyed file).succeeds file = true ∧
        (c.keyed file).save file = ⟨file.rows ++ c.inserted, none⟩) ∨
      (.tx c.tx.id ∈ file.rows ∧ (c.keyed file).save file = file) := by
  obtain ⟨message, heq⟩ := guarded_addTransaction hopen (c.keyed file)
  have hcommit : (c.keyed file).outcomes.commit = true := hc.2
  rw [reachesCommit_keyed, hc.1, Bool.true_and, hcommit] at heq
  rw [Call.succeeds, Call.save, heq]
  by_cases htx : .tx c.tx.id ∈ file.rows
  · exact .inr ⟨htx, by simp [htx, Session.after]⟩
  · refine .inl ⟨htx, ?_, ?_⟩
    · simp [htx]
      rfl
    · simp [htx]
      rfl

/-- **Without a fault, whatever is not there yet is added**, though other transactions may be there
or come up again. -/
theorem mem_added_of_faultless {before after : List Call} (hopen : file.working = none)
    (hfaultless : ∀ c' ∈ before ++ c :: after, c'.Faultless) (hfree : .tx c.tx.id ∉ file.rows)
    (hfirst : ∀ c' ∈ before, c'.tx.id ≠ c.tx.id) : c.tx ∈ added (before ++ c :: after) file := by
  induction before generalizing file with
  | nil =>
    obtain ⟨-, hs, -⟩ | ⟨htaken, -⟩ := save_of_faultless hopen (hfaultless c List.mem_cons_self)
    · rw [List.nil_append, added, hs]
      exact List.mem_append_left _ (List.mem_singleton_self _)
    · exact absurd htaken hfree
  | cons c' before ih =>
    rw [List.cons_append, List.forall_mem_cons] at hfaultless
    rw [List.forall_mem_cons] at hfirst
    rw [List.cons_append, added]
    refine List.mem_append_right _ ?_
    obtain ⟨-, -, hsave⟩ | ⟨-, hsave⟩ := save_of_faultless hopen hfaultless.1
    · rw [hsave]
      refine ih rfl hfaultless.2 (fun hmem ↦ ?_) hfirst.2
      obtain hmem | hmem := List.mem_append.1 hmem
      · exact hfree hmem
      · exact hfirst.1 (tx_mem_inserted hmem).symm
    · rw [hsave]
      exact ih hopen hfaultless.2 hfree hfirst.2

/-- **The file says what has been saved.** -/
structure LoadsBack (h : List (Move (List Row) Save)) (rows : List Row) : Prop where
  /-- The transactions in the file are those added since it was last removed, as they were. -/
  rows : load rows = (contents h).map SavedTransaction.loaded
  once : ((contents h).map SavedTransaction.id).Nodup
  /-- Where no statement fails, each transaction of the list is added that is not there yet, when
  its number first comes up. -/
  complete : ∀ t ∈ h, (∀ c ∈ t.label.calls, c.Faultless) →
    ∀ before c after, t.label.calls = before ++ c :: after →
      .tx c.tx.id ∉ t.label.opened t.source → (∀ c' ∈ before, c'.tx.id ≠ c.tx.id) →
        c.tx ∈ t.label.saved t.source

theorem loadsBack_of_run {h : List (Move (List Row) Save)} (hrun : files.Run h rows)
    (hnumbers : ∀ t ∈ h, t.label.Numbers t.source) : LoadsBack h rows where
  rows := (holds_of_run hrun hnumbers).rows
  once := (holds_of_run hrun hnumbers).once
  complete t _ hfaultless before c after heq hfree hfirst := by
    rw [Save.saved, heq]
    exact mem_added_of_faultless rfl (heq ▸ hfaultless) hfree hfirst

/-- The first transaction is saved. The second time the old file stays, and the response of the
third cannot be inserted. -/
def savedTwice : List Save :=
  [{ calls := [⟨savedGet 1, { requestId := 1, responseId := 2 }⟩] },
    { removed := false
      calls :=
        [⟨savedGet 1, { requestId := 3, responseId := 4 }⟩,
          ⟨savedGet 2, { requestId := 3, responseId := 4 }⟩,
          ⟨savedGet 3, { requestId := 5, responseId := 6, execResponse := false }⟩] }]

theorem savedTwice_loadsBack :
    ∃ h rows, files.Run h rows ∧ LoadsBack h rows ∧ h.length = 2 ∧
      (load rows).map LoadedTransaction.id = [1, 2] := by
  have hnext : ∀ rows save rows', some (Save.saveTransactionFile save rows) = some rows' →
      files.step rows save rows' := fun _ _ _ ↦ Option.some.inj
  have hstart : files.init [] := rfl
  obtain ⟨h, rows, hrun, hnumbers, htest⟩ := Run.exists_of_follow hnext hstart savedTwice
    (fun h rows ↦ (∀ t ∈ h, t.label.Numbers t.source) ∧ h.length = 2 ∧
      (load rows).map LoadedTransaction.id = [1, 2])
    (by decide +kernel)
  exact ⟨h, rows, hrun, loadsBack_of_run hrun hnumbers, htest⟩

end TransactionFile

end Amanuensis
