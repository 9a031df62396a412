import Amanuensis.App.TransactionFile

/-!
# Reading saved transactions

Whether the rows that a call has added to a file say what the transaction was: its two messages with
all their fields, and under the identifier of each message the headers it came with. The minor
version of a response is saved as its major version, and the headers of a message under the lower 32
bits of its identifier. So a transaction reads back as it was exactly if neither makes a difference
(`readsBack_iff`).
-/

namespace Amanuensis

namespace TransactionFile

/-! ### Reading -/

/-- The rows of the messages. -/
def messagesOf (rows : List Row) : List Row :=
  rows.filter fun row ↦
    match row with
    | .request .. | .response .. => true
    | .tx _ | .header .. => false

/-- The headers saved under an identifier. -/
def headersOf (id : ℤ) (rows : List Row) : List (QString × QString) :=
  rows.filterMap fun row ↦
    match row with
    | .header messageId name value => if messageId = id then some (name, value) else none
    | _ => none

/-- The rows that a call adds to a file. -/
def Call.written (c : Call) (file : Session Row) : List Row :=
  (c.save file).rows.drop file.rows.length

/-- **The transaction reads back** from some rows as it was. -/
structure ReadsBack (c : Call) (rows : List Row) : Prop where
  messages : messagesOf rows =
    [.request c.outcomes.requestId c.tx.id c.tx.request.method c.tx.request.uri
        c.tx.request.majorVersion c.tx.request.minorVersion c.tx.request.body,
      .response c.outcomes.responseId c.tx.id c.tx.response.statusCode c.tx.response.statusMessage
        c.tx.response.majorVersion c.tx.response.minorVersion c.tx.response.body]
  requestHeaders : (headersOf c.outcomes.requestId rows).Perm c.tx.request.headers.values
  responseHeaders : (headersOf c.outcomes.responseId rows).Perm c.tx.response.headers.values
  /-- No header is saved under another identifier. -/
  attached : ∀ messageId name value, .header messageId name value ∈ rows →
    messageId = c.outcomes.requestId ∨ messageId = c.outcomes.responseId

/-- An identifier is one of 32 bits, if there are headers to save under it. -/
def Fits (id : ℤ) (headers : Headers) : Prop := headers.values = [] ∨ toInt id = id

variable {file : Session Row} {c : Call} {id messageId : ℤ} {headers : Headers}

/-! ### What a call adds -/

/-- A call that succeeds adds the rows it inserts. -/
theorem written_of_succeeds (hs : c.succeeds file = true) : c.written file = c.inserted := by
  have hopen : file.working = none := by
    by_contra hopen
    have hfails : addTransaction c.tx c.outcomes file =
        .error (file, "Failed to begain a transaction") := Session.begin_bind_of_open hopen
    rw [Call.succeeds, hfails] at hs
    exact Bool.false_ne_true hs
  rcases save_cases hopen c with ⟨-, -, heq⟩ | ⟨hnot, -⟩ | ⟨hnot, -⟩
  · rw [Call.written, heq]
    exact List.drop_left
  · exact absurd (hnot.symm.trans hs) Bool.false_ne_true
  · exact absurd (hnot.symm.trans hs) Bool.false_ne_true

theorem headersOf_append (xs ys : List Row) :
    headersOf id (xs ++ ys) = headersOf id xs ++ headersOf id ys :=
  List.filterMap_append

theorem headersOf_headerRows (id messageId : ℤ) (headers : Headers) :
    headersOf id (headerRows messageId headers) = if messageId = id then headers.pairs else [] := by
  rw [headerRows_eq, headersOf, List.filterMap_map]
  split_ifs with heq
  · simp [heq]
  · simp [heq]

theorem messagesOf_headerRows (messageId : ℤ) (headers : Headers) :
    messagesOf (headerRows messageId headers) = [] := by
  rw [headerRows_eq, messagesOf, List.filter_map]
  simp [Function.comp_def]

theorem messagesOf_inserted (c : Call) :
    messagesOf c.inserted =
      [requestRow c.outcomes.requestId c.tx, responseRow c.outcomes.responseId c.tx] := by
  have hrequest := messagesOf_headerRows (toInt c.outcomes.requestId) c.tx.request.headers
  have hresponse := messagesOf_headerRows (toInt c.outcomes.responseId) c.tx.response.headers
  rw [messagesOf] at hrequest hresponse ⊢
  rw [Call.inserted, List.filter_append, List.filter_append, List.filter_append, hrequest,
    hresponse]
  rfl

theorem headersOf_inserted (id : ℤ) (c : Call) :
    headersOf id c.inserted =
      headersOf id (headerRows (toInt c.outcomes.requestId) c.tx.request.headers) ++
        headersOf id (headerRows (toInt c.outcomes.responseId) c.tx.response.headers) := by
  rw [Call.inserted, headersOf_append, headersOf_append, headersOf_append]
  simp [headersOf, requestRow, responseRow]

/-! ### Identifiers -/

theorem toInt_toInt (id : ℤ) : toInt (toInt id) = toInt id := Int.bmod_bmod

/-- An identifier that is truncated is not what another one is truncated to. -/
theorem toInt_eq_self_of_toInt_eq {other : ℤ} (h : toInt other = id) : toInt id = id := by
  rw [← h, toInt_toInt]

/-- Headers saved under an identifier that fits are found under it, and under no other. -/
theorem headersOf_of_fits (hh : headers.Coherent) (hfits : Fits messageId headers) (id : ℤ) :
    (headersOf messageId (headerRows (toInt messageId) headers)).Perm headers.values ∧
      (messageId ≠ id → headersOf id (headerRows (toInt messageId) headers) = []) := by
  rw [headersOf_headerRows, headersOf_headerRows]
  rcases hfits with hnone | heq
  · have hpairs : headers.pairs = [] := List.perm_nil.1 (hnone ▸ hh.pairs_perm)
    simp [hpairs, hnone]
  · rw [heq, if_pos rfl]
    exact ⟨hh.pairs_perm, fun hne ↦ if_neg hne⟩

/-- Headers saved under another identifier are lost. -/
theorem fits_of_headersOf {other : ℤ} {rest : Headers}
    (hperm : (headersOf id (headerRows (toInt id) headers) ++
      headersOf id (headerRows (toInt other) rest)).Perm headers.values) : Fits id headers := by
  by_cases heq : toInt id = id
  · exact .inr heq
  · refine .inl ?_
    have hother : toInt other ≠ id := fun h ↦ heq (toInt_eq_self_of_toInt_eq h)
    rw [headersOf_headerRows, headersOf_headerRows, if_neg heq, if_neg hother] at hperm
    exact List.nil_perm.1 hperm

/-- Headers are saved under an identifier that fits. -/
theorem eq_of_mem_headerRows {name value : QString} (hh : headers.Coherent)
    (hfits : Fits id headers)
    (hmem : .header messageId name value ∈ headerRows (toInt id) headers) :
    messageId = id := by
  rw [headerRows_eq] at hmem
  obtain ⟨entry, hentry, heq⟩ := List.mem_map.1 hmem
  have hvalues : headers.values ≠ [] := List.ne_nil_of_mem (hh.pairs_perm.mem_iff.1 hentry)
  rw [← (Row.header.inj heq).1]
  exact hfits.resolve_left hvalues

/-- **When a transaction reads back as it was**: its response has the same number for both versions,
and the identifiers of the messages that have headers fit into 32 bits. -/
theorem readsBack_iff (hs : c.succeeds file = true)
    (hids : c.outcomes.requestId ≠ c.outcomes.responseId) :
    ReadsBack c (c.written file) ↔
      c.tx.response.minorVersion = c.tx.response.majorVersion ∧
        Fits c.outcomes.requestId c.tx.request.headers ∧
        Fits c.outcomes.responseId c.tx.response.headers := by
  rw [written_of_succeeds hs]
  constructor
  · intro hreads
    refine ⟨?_, fits_of_headersOf (headersOf_inserted _ c ▸ hreads.requestHeaders),
      fits_of_headersOf ((List.perm_append_comm).trans
        (headersOf_inserted _ c ▸ hreads.responseHeaders))⟩
    have hmessages := (messagesOf_inserted c).symm.trans hreads.messages
    have hrow := (List.cons.inj (List.cons.inj hmessages).2).1
    exact (Row.response.inj hrow).2.2.2.2.2.1.symm
  · rintro ⟨hversion, hrequest, hresponse⟩
    have hrequest' :=
      headersOf_of_fits c.tx.request_coherent hrequest c.outcomes.responseId
    have hresponse' :=
      headersOf_of_fits c.tx.response_coherent hresponse c.outcomes.requestId
    refine ⟨?_, ?_, ?_, fun messageId name value hmem ↦ ?_⟩
    · rw [messagesOf_inserted, hversion]
      rfl
    · rw [headersOf_inserted, hresponse'.2 hids.symm, List.append_nil]
      exact hrequest'.1
    · rw [headersOf_inserted, hrequest'.2 hids, List.nil_append]
      exact hresponse'.1
    · have hrows : .header messageId name value ∈
            headerRows (toInt c.outcomes.requestId) c.tx.request.headers ∨
          .header messageId name value ∈
            headerRows (toInt c.outcomes.responseId) c.tx.response.headers := by
        simpa [Call.inserted, requestRow, responseRow] using hmem
      exact hrows.imp (eq_of_mem_headerRows c.tx.request_coherent hrequest)
        (eq_of_mem_headerRows c.tx.response_coherent hresponse)

/-- The same transaction, with a response in HTTP/1.1 or in another version. -/
def savedResponse (minorVersion : ℤ) : Call where
  tx :=
    { savedGet 1 with
      response := { statusCode := 204, majorVersion := 1, minorVersion := minorVersion } }
  outcomes := { requestId := 1, responseId := 2 }

theorem savedResponse_readsBack : ReadsBack (savedResponse 1) ((savedResponse 1).written {}) :=
  (readsBack_iff rfl (by decide)).2 ⟨rfl, .inr rfl, .inl rfl⟩

/-- The response `HTTP/1.0 204` is saved as one of the version 1.1. -/
theorem savedResponse_not_readsBack :
    ¬ ReadsBack (savedResponse 0) ((savedResponse 0).written {}) := by
  intro hreads
  have hmessages : messagesOf ((savedResponse 0).written {}) =
      [requestRow 1 (savedResponse 0).tx, responseRow 2 (savedResponse 0).tx] := by
    rw [written_of_succeeds rfl, messagesOf_inserted]
    rfl
  have hrow := (List.cons.inj (List.cons.inj (hmessages.symm.trans hreads.messages)).2).1
  exact nomatch (Row.response.inj hrow).2.2.2.2.2.1

end TransactionFile

end Amanuensis
