import Amanuensis.Foundation.Session
import Amanuensis.Http.HeaderLaws

/-!
# Saving transactions

`TransactionFile::addTransaction`: one unit of work of fourteen statements, each of which may fail.
A call whose statements all succeed adds the rows of its transaction, and a call in which one fails
adds none — save that a `COMMIT` that fails is logged only. The SQL transaction stays open, and
every later call fails at its beginning (`saveAll_of_open`). So a file holds what it should after
every call exactly when no call fails at its commit (`allOrNothing_iff`).
-/

namespace Amanuensis

/-! ### Rows -/

/-- A row of one of the three tables. -/
inductive Row
  | tx (id : ℤ)
  /-- A row of `messages` with `is_request` set. -/
  | request (id txId : ℤ) (method uri : QString) (majorVersion minorVersion : ℤ) (body : QByteArray)
  /-- A row of `messages` with `is_request` not set. -/
  | response (id txId : ℤ) (statusCode : ℤ) (statusMessage : QString)
      (majorVersion minorVersion : ℤ) (body : QByteArray)
  | header (messageId : ℤ) (name value : QString)
  deriving DecidableEq, Repr

/-- What is saved of a transaction. A header collection is only ever inserted into. -/
structure SavedTransaction where
  id : ℤ
  request : HttpMessage := {}
  response : HttpMessage := {}
  request_coherent : request.headers.Coherent
  response_coherent : response.headers.Coherent

/-- How the statements of a call go: whether each succeeds, and the row identifiers that the
database assigns to the messages. -/
structure Outcomes where
  begin : Bool := true
  prepareTx : Bool := true
  execTx : Bool := true
  prepareRequest : Bool := true
  execRequest : Bool := true
  requestId : ℤ
  nextRequest : Bool := true
  prepareRequestHeaders : Bool := true
  /-- The header at which the batch fails. -/
  requestHeadersFailAt : Option ℕ := none
  prepareResponse : Bool := true
  execResponse : Bool := true
  responseId : ℤ
  nextResponse : Bool := true
  prepareResponseHeaders : Bool := true
  /-- The header at which the batch fails. -/
  responseHeadersFailAt : Option ℕ := none
  commit : Bool := true
  deriving DecidableEq, Repr

namespace TransactionFile

/-- `QVariant::toInt`, of a 64-bit integer. -/
def toInt (value : ℤ) : ℤ := value.bmod (2 ^ 32)

/-- The row of a request. -/
def requestRow (id : ℤ) (tx : SavedTransaction) : Row :=
  .request id tx.id tx.request.method tx.request.uri tx.request.majorVersion
    tx.request.minorVersion tx.request.body

/-- The row of a response, whose version comes from the accessors of `Response`. -/
def responseRow (id : ℤ) (tx : SavedTransaction) : Row :=
  .response id tx.id tx.response.statusCode tx.response.statusMessage
    (Response.majorVersion tx.response) (Response.minorVersion tx.response) tx.response.body

/-- The headers of a message, name by name. -/
def headerRows (messageId : ℤ) (headers : Headers) : List Row :=
  headers.names.flatMap fun name ↦
    (headers.findByName name).map fun value ↦ .header messageId name value

/-- The call, with the file it leaves, and the message logged if it fails. -/
def addTransaction (tx : SavedTransaction) (o : Outcomes) (file : Session Row) :
    Except (Session Row × String) (Session Row) := do
  let file ← file.begin o.begin "Failed to begain a transaction"
  let file ← file.attempt o.prepareTx "Failed to prepare tx insert" []
  let file ← file.attempt o.execTx "Failed to insert tx" [.tx tx.id]
  let file ← file.attempt o.prepareRequest "Failed to prepare request insert" []
  let file ← file.attempt o.execRequest "Failed to execute request insert"
    [requestRow o.requestId tx]
  let file ← file.attempt o.nextRequest
    "Expected a returned ID for the inserted request, but got no data" []
  let file ← file.attempt o.prepareRequestHeaders "Failed to prepare request header insert" []
  let file ← file.attemptBatch o.requestHeadersFailAt "Failed to insert request headers"
    (headerRows (toInt o.requestId) tx.request.headers)
  let file ← file.attempt o.prepareResponse "Failed to prepare response insert" []
  let file ← file.attempt o.execResponse "Failed to insert response"
    [responseRow o.responseId tx]
  let file ← file.attempt o.nextResponse
    "Expected a returned ID for the inserted response but got no data" []
  let file ← file.attempt o.prepareResponseHeaders "Failed to prepare response header insert" []
  let file ← file.attemptBatch o.responseHeadersFailAt "Failed to insert response headers"
    (headerRows (toInt o.responseId) tx.response.headers)
  -- the one failure that is not followed by a rollback
  file.commit o.commit "Failed to commit transaction insert"

/-! ### What a call does -/

/-- A call, with the way its statements go. -/
structure Call where
  tx : SavedTransaction
  outcomes : Outcomes

namespace Call

/-- Every statement before the commit succeeds. -/
def reachesCommit (c : Call) : Bool :=
  let o := c.outcomes
  [o.begin, o.prepareTx, o.execTx, o.prepareRequest, o.execRequest, o.nextRequest,
    o.prepareRequestHeaders, o.requestHeadersFailAt.isNone, o.prepareResponse, o.execResponse,
    o.nextResponse, o.prepareResponseHeaders, o.responseHeadersFailAt.isNone].all id

/-- **The commit fails**, and nothing before it. -/
def FailsAtCommit (c : Call) : Prop := c.reachesCommit = true ∧ c.outcomes.commit = false

/-- The rows a call inserts, in the order of its statements. -/
def inserted (c : Call) : List Row :=
  [.tx c.tx.id, requestRow c.outcomes.requestId c.tx] ++
    headerRows (toInt c.outcomes.requestId) c.tx.request.headers ++
    [responseRow c.outcomes.responseId c.tx] ++
    headerRows (toInt c.outcomes.responseId) c.tx.response.headers

/-- The file after a call. -/
def save (c : Call) (file : Session Row) : Session Row :=
  Session.after (addTransaction c.tx c.outcomes file)

/-- All statements of a call succeed. -/
def succeeds (c : Call) (file : Session Row) : Bool :=
  (addTransaction c.tx c.outcomes file).isOk

/-- **The rows of a call**: the transaction, its two messages and all of their headers. -/
def rows (c : Call) : List Row :=
  [.tx c.tx.id, requestRow c.outcomes.requestId c.tx, responseRow c.outcomes.responseId c.tx] ++
    (c.tx.request.headers.values.map fun entry ↦
      .header (toInt c.outcomes.requestId) entry.1 entry.2) ++
    c.tx.response.headers.values.map fun entry ↦
      .header (toInt c.outcomes.responseId) entry.1 entry.2

end Call

variable {file : Session Row} {c : Call}

/-- **A call on a file without an open transaction** gets to its commit with all its rows inserted,
or leaves the file as it was. -/
theorem guarded_addTransaction (hopen : file.working = none) (c : Call) :
    Session.Guarded c.reachesCommit file
      ((Session.mk file.rows (some (file.rows ++ c.inserted))).commit c.outcomes.commit
        "Failed to commit transaction insert")
      (addTransaction c.tx c.outcomes file) := by
  obtain ⟨rows, working⟩ := file
  obtain rfl : working = none := hopen
  have hinserted : rows ++ c.inserted =
      rows ++ [] ++ [.tx c.tx.id] ++ [] ++ [requestRow c.outcomes.requestId c.tx] ++ [] ++ [] ++
        headerRows (toInt c.outcomes.requestId) c.tx.request.headers ++ [] ++
        [responseRow c.outcomes.responseId c.tx] ++ [] ++ [] ++
        headerRows (toInt c.outcomes.responseId) c.tx.response.headers := by
    simp [Call.inserted]
  rw [hinserted]
  refine .begin (.attempt (.attempt (.attempt (.attempt (.attempt (.attempt (.attemptBatch
    (.attempt (.attempt (.attempt (.attempt (.attemptBatch ?_))))))))))))
  exact .refl "" _ _

theorem headerRows_eq (messageId : ℤ) (headers : Headers) :
    headerRows messageId headers =
      headers.pairs.map fun entry ↦ .header messageId entry.1 entry.2 := by
  rw [headerRows, Headers.pairs, List.map_flatMap]
  refine List.flatMap_congr fun name _ ↦ ?_
  rw [List.map_map]
  rfl

/-- Each header is inserted once. -/
theorem headerRows_perm {headers : Headers} (hh : headers.Coherent) (messageId : ℤ) :
    (headerRows messageId headers).Perm
      (headers.values.map fun entry ↦ .header messageId entry.1 entry.2) := by
  rw [headerRows_eq]
  exact hh.pairs_perm.map _

theorem inserted_perm (c : Call) : c.inserted.Perm c.rows := by
  have hrequest := headerRows_perm c.tx.request_coherent (toInt c.outcomes.requestId)
  have hresponse := headerRows_perm c.tx.response_coherent (toInt c.outcomes.responseId)
  rw [Call.inserted, Call.rows]
  refine List.Perm.append ?_ hresponse
  rw [List.append_assoc]
  exact ((List.perm_append_singleton _ _).trans (hrequest.cons _)).append_left
    [.tx c.tx.id, requestRow c.outcomes.requestId c.tx]

/-- **What a call does** to a file without an open transaction. -/
theorem save_cases (hopen : file.working = none) (c : Call) :
    (c.succeeds file = true ∧ ¬ c.FailsAtCommit ∧ c.save file = ⟨file.rows ++ c.inserted, none⟩) ∨
      (c.succeeds file = false ∧ c.FailsAtCommit ∧ (c.save file).working ≠ none) ∨
      (c.succeeds file = false ∧ ¬ c.FailsAtCommit ∧ c.save file = file) := by
  obtain ⟨message, heq⟩ := guarded_addTransaction hopen c
  rw [Call.succeeds, Call.save, Call.FailsAtCommit, heq]
  cases c.reachesCommit with
  | false => exact Or.inr (Or.inr ⟨rfl, fun h ↦ Bool.false_ne_true h.1, rfl⟩)
  | true =>
    cases c.outcomes.commit with
    | false => exact Or.inr (Or.inl ⟨rfl, ⟨rfl, rfl⟩, Option.some_ne_none _⟩)
    | true => exact Or.inl ⟨rfl, fun h ↦ Bool.false_ne_true h.2.symm, rfl⟩

/-! ### Sequences of calls -/

/-- The file after some calls. -/
def saveAll (calls : List Call) (file : Session Row) : Session Row :=
  calls.foldl (fun file c ↦ c.save file) file

/-- The rows of the calls that succeed. -/
def savedRows : List Call → Session Row → List Row
  | [], _ => []
  | c :: calls, file =>
    (if c.succeeds file then c.rows else []) ++ savedRows calls (c.save file)

/-- **All or nothing**: no transaction is left open, and what some calls have added to a file are
the rows of those that succeeded. -/
structure AllOrNothing (file : Session Row) (calls : List Call) : Prop where
  closed : (saveAll calls file).working = none
  rows : (saveAll calls file).rows.Perm (file.rows ++ savedRows calls file)

theorem allOrNothing_nil (hopen : file.working = none) : AllOrNothing file [] :=
  ⟨hopen, by rw [savedRows, List.append_nil]; exact .refl _⟩

/-- The first call, and the rest. -/
theorem allOrNothing_cons_iff (hopen : file.working = none) (hc : ¬ c.FailsAtCommit)
    (calls : List Call) : AllOrNothing file (c :: calls) ↔ AllOrNothing (c.save file) calls := by
  have hrows : (c.save file).rows.Perm (file.rows ++ if c.succeeds file then c.rows else []) := by
    rcases save_cases hopen c with ⟨hs, -, heq⟩ | ⟨-, hfails, -⟩ | ⟨hs, -, heq⟩
    · rw [heq, if_pos hs]
      exact (inserted_perm c).append_left _
    · exact absurd hfails hc
    · rw [heq, if_neg (by simp [hs]), List.append_nil]
  have hsaved : (file.rows ++ savedRows (c :: calls) file).Perm
      ((c.save file).rows ++ savedRows calls (c.save file)) := by
    rw [savedRows, ← List.append_assoc]
    exact (hrows.append_right _).symm
  exact ⟨fun h ↦ ⟨h.closed, h.rows.trans hsaved⟩, fun h ↦ ⟨h.closed, h.rows.trans hsaved.symm⟩⟩

/-- After a commit that failed, every call fails at its beginning. -/
theorem saveAll_of_open (hopen : file.working ≠ none) (calls : List Call) :
    saveAll calls file = file ∧ savedRows calls file = [] := by
  have hfails (c : Call) : addTransaction c.tx c.outcomes file =
      .error (file, "Failed to begain a transaction") := Session.begin_bind_of_open hopen
  induction calls with
  | nil => exact ⟨rfl, rfl⟩
  | cons c calls ih =>
    have hsave : c.save file = file := by
      rw [Call.save, hfails]
      rfl
    have hs : c.succeeds file = false := by
      rw [Call.succeeds, hfails]
      rfl
    refine ⟨?_, ?_⟩
    · show saveAll calls (c.save file) = file
      rw [hsave, ih.1]
    · rw [savedRows, hs, hsave, ih.2]
      rfl

/-- **When saving is all or nothing**, after every call: no call fails at its commit. -/
theorem allOrNothing_iff (hopen : file.working = none) (calls : List Call) :
    (∀ earlier, earlier <+: calls → AllOrNothing file earlier) ↔
      ∀ c ∈ calls, ¬ c.FailsAtCommit := by
  induction calls generalizing file with
  | nil =>
    refine iff_of_true (fun earlier hpre ↦ ?_) (by simp)
    obtain rfl := List.prefix_nil.1 hpre
    exact allOrNothing_nil hopen
  | cons c calls ih =>
    by_cases hc : c.FailsAtCommit
    · refine iff_of_false (fun hall ↦ ?_) fun hnone ↦ hnone c List.mem_cons_self hc
      -- the transaction is still open after this very call
      have hclosed := (hall [c] (List.cons_prefix_cons.2 ⟨rfl, List.nil_prefix⟩)).closed
      rcases save_cases hopen c with ⟨-, hnot, -⟩ | ⟨-, -, hleft⟩ | ⟨-, hnot, -⟩
      · exact hnot hc
      · exact hleft hclosed
      · exact hnot hc
    · have hclosed : (c.save file).working = none := by
        rcases save_cases hopen c with ⟨-, -, heq⟩ | ⟨-, hfails, -⟩ | ⟨-, -, heq⟩
        · rw [heq]
        · exact absurd hfails hc
        · rw [heq, hopen]
      rw [List.forall_mem_cons, ← ih hclosed]
      constructor
      · intro hall
        refine ⟨hc, fun earlier hpre ↦ ?_⟩
        exact (allOrNothing_cons_iff hopen hc _).1 (hall _ (List.cons_prefix_cons.2 ⟨rfl, hpre⟩))
      · rintro ⟨-, hall⟩ earlier hpre
        rcases List.prefix_cons_iff.1 hpre with rfl | ⟨earlier, rfl, hrest⟩
        · exact allOrNothing_nil hopen
        · exact (allOrNothing_cons_iff hopen hc _).2 (hall _ hrest)

/-- A `GET` and its response. -/
def savedGet (id : ℤ) : SavedTransaction where
  id := id
  request :=
    { method := QString.ofString "GET"
      uri := QString.ofString "/"
      headers := Headers.insert {} (QString.ofString "Host") (QString.ofString "a") }
  response := { statusCode := 204 }
  request_coherent := Headers.coherent_empty.insert _ _
  response_coherent := Headers.coherent_empty

/-- A call whose response cannot be inserted, and one that succeeds. -/
def partlyFailing : List Call :=
  [⟨savedGet 1, { requestId := 1, responseId := 2, execResponse := false }⟩,
    ⟨savedGet 2, { requestId := 1, responseId := 2 }⟩]

theorem partlyFailing_allOrNothing : AllOrNothing { rows := [.tx 0] } partlyFailing := by
  have hcommits : ∀ c ∈ partlyFailing, ¬ c.FailsAtCommit := by
    rw [partlyFailing, List.forall_mem_cons, List.forall_mem_singleton]
    exact ⟨fun h ↦ (nomatch h.1), fun h ↦ (nomatch h.2)⟩
  exact (allOrNothing_iff rfl partlyFailing).2 hcommits partlyFailing List.prefix_rfl

/-- A commit fails: its transaction stays open, and the next call cannot begin. -/
theorem commitFails_not_allOrNothing :
    ¬ AllOrNothing {} [⟨savedGet 1, { requestId := 1, responseId := 2, commit := false }⟩] ∧
      Call.succeeds ⟨savedGet 2, { requestId := 3, responseId := 4 }⟩
        (saveAll [⟨savedGet 1, { requestId := 1, responseId := 2, commit := false }⟩] {}) =
          false := by
  refine ⟨fun h ↦ ?_, rfl⟩
  exact nomatch h.closed

end TransactionFile

end Amanuensis
