import Amanuensis.Transaction.Control

/-!
# The messages of a run

The bytes a transaction has read are those of the reads in its history. While a message is being
read, the parser is where one scan of those bytes, from a reset parser, leaves it; and once the
response is complete, what is written to the client is all of its reads (`Says`,
`says_of_run`). That the reads are many does not matter, which is what the scanner's composition
of runs says. In the end the messages of a transaction are what one pass of the parser stores of all
those bytes (`request_eq_of_run`, `response_eq_of_run`).
-/

namespace Amanuensis

namespace Transaction

open HttpMessageParser LabelledSystem

variable {m m' : Machine} {l : Label} {h : List (Move Machine Label)}

/-! ### Reads -/

/-- The bytes a move reads, if it is a read of this kind that does not fail. -/
def readOf (op : Operation) (t : Move Machine Label) : Option QByteArray :=
  if t.label.operation = op ∧ t.label.completion.ec.isError = false then
    some t.label.completion.data
  else none

/-- The bytes of the reads of one kind, in order. -/
def readsOf (op : Operation) (h : List (Move Machine Label)) : List QByteArray :=
  h.filterMap (readOf op)

/-- What has been read from the client. -/
abbrev clientReads : List (Move Machine Label) → List QByteArray := readsOf .readClientRequest

/-- What has been read from the remote. -/
abbrev remoteReads : List (Move Machine Label) → List QByteArray := readsOf .readRemoteResponse

theorem readsOf_append (op : Operation) (h : List (Move Machine Label)) (t : Move Machine Label) :
    readsOf op (h ++ [t]) = readsOf op h ++ (readOf op t).toList := by
  rw [readsOf, List.filterMap_append]
  cases ht : readOf op t <;> simp [readsOf, ht]

theorem readsOf_append_of_read {t : Move Machine Label}
    (hok : t.label.completion.ec.isError = false) :
    readsOf t.label.operation (h ++ [t]) =
      readsOf t.label.operation h ++ [t.label.completion.data] := by
  rw [readsOf_append, readOf, if_pos ⟨rfl, hok⟩]
  rfl

theorem readsOf_append_of_ne {op : Operation} {t : Move Machine Label}
    (hop : t.label.operation ≠ op) : readsOf op (h ++ [t]) = readsOf op h := by
  rw [readsOf_append, readOf, if_neg fun hread ↦ hop hread.1]
  exact List.append_nil _

theorem readsOf_append_of_error {op : Operation} {t : Move Machine Label}
    (herr : t.label.completion.ec.isError = true) : readsOf op (h ++ [t]) = readsOf op h := by
  rw [readsOf_append, readOf, if_neg (by simp [herr])]
  exact List.append_nil _

/-! ### Cursors -/

theorem isSome_phase_scan {c : Cursor} (hc : c.phase.isSome = true) (bytes : QByteArray) :
    (scanner.scan c bytes).state.phase.isSome = true := by
  refine scanner.scan_state_induction (P := fun c ↦ c.phase.isSome = true) ?_ hc bytes
  intro c input hc
  have hsome := isSome_phase_consume c input
  rcases hconsume : consume c input with ⟨_ | _ | _ | _ | _, c'⟩ <;> rw [hconsume] at hsome <;>
    simp only [scanner, hconsume] <;> simp_all [Cursor.finish]

theorem requestCursor_of_content {c : Cursor} (hc : c.phase.isSome = true)
    (hcontent : m'.content = (m.setRequestCursor c).content) : m'.requestCursor = c := by
  obtain ⟨phase, hphase⟩ := Option.isSome_iff_exists.1 hc
  have hparser : m'.tx.parser = c.parser := congrArg Content.parser hcontent
  have hmessage : m'.tx.request = c.message := congrArg Content.request hcontent
  have hstart : m'.tx.requestParsePhase = c.phase.getD m.tx.requestParsePhase :=
    congrArg Content.requestParsePhase hcontent
  rw [Machine.requestCursor, hparser, hmessage, hstart]
  obtain ⟨parser, message, _⟩ := c
  obtain rfl : _ = some phase := hphase
  rfl

theorem responseCursor_of_content {c : Cursor} {raw : QByteArray} (hc : c.phase.isSome = true)
    (hcontent : m'.content = { (m.setResponseCursor c).content with rawInput := raw }) :
    m'.responseCursor = c := by
  obtain ⟨phase, hphase⟩ := Option.isSome_iff_exists.1 hc
  have hparser : m'.tx.parser = c.parser := congrArg Content.parser hcontent
  have hmessage : m'.tx.response = c.message := congrArg Content.response hcontent
  have hstart : m'.tx.responseParsePhase = c.phase.getD m.tx.responseParsePhase :=
    congrArg Content.responseParsePhase hcontent
  rw [Machine.responseCursor, hparser, hmessage, hstart]
  obtain ⟨parser, message, _⟩ := c
  obtain rfl : _ = some phase := hphase
  rfl

/-! ### The messages read so far -/

/-- Nothing has been read of the response. -/
def Fresh (h : List (Move Machine Label)) (m : Machine) : Prop :=
  remoteReads h = [] ∧ m.tx.response = {} ∧ m.tx.responseParsePhase = .start

/-- What has been read from the remote is a complete response, which was incomplete before the last
read. -/
def ResponseRead (reads : List QByteArray) : Prop :=
  ∃ earlier last, reads = earlier ++ [last] ∧
    (scanner.scan (.start .response {}) earlier.flatten).verdict = none ∧
    outcomeOf (scanner.scan (.start .response {}) reads.flatten).verdict = .valid

/-- **What a pending operation says of the messages**. -/
def Says (h : List (Move Machine Label)) (m : Machine) : Operation → Prop
  | .readClientRequest =>
    scanner.scan (.start .request {}) (clientReads h).flatten = ⟨none, m.requestCursor, []⟩ ∧
      Fresh h m
  | .resolve _ | .connect _ | .sendRequest _ => Fresh h m
  | .readRemoteResponse =>
    m.tx.rawInput = (remoteReads h).flatten ∧
      scanner.scan (.start .response {}) (remoteReads h).flatten = ⟨none, m.responseCursor, []⟩
  | .sendResponse bytes => bytes = (remoteReads h).flatten ∧ ResponseRead (remoteReads h)
  | _ => True

theorem says_of_direction {op : Operation} (hd : op.direction ≠ none) : Says h m op := by
  cases op <;> trivial

/-- A scan that asked for more is continued by the next read. -/
theorem scan_flatten_append {start cursor : Cursor} {reads : List QByteArray}
    (hscan : scanner.scan start reads.flatten = ⟨none, cursor, []⟩) (data : QByteArray) :
    scanner.scan start (reads ++ [data]).flatten = scanner.scan cursor data := by
  have hnone : (scanner.scan start reads.flatten).verdict = none := by rw [hscan]
  rw [List.flatten_append, List.flatten_singleton, scanner.scan_append_of_none hnone, hscan]

theorem scan_eq_of_verdict_none {cursor : Cursor} {bytes : QByteArray}
    (hnone : (scanner.scan cursor bytes).verdict = none) :
    scanner.scan cursor bytes = ⟨none, (scanner.scan cursor bytes).state, []⟩ := by
  have hrest := scanner.rest_eq_nil_of_verdict_none hnone
  cases hscan : scanner.scan cursor bytes
  rw [hscan] at hnone hrest
  simp_all

/-- Only a read of the response changes the response. -/
theorem Fresh.step (hfresh : Fresh h m) (hm : Control m) (hstep : system.step m l m')
    (hop : l.operation ≠ .readRemoteResponse) : Fresh (h ++ [⟨m, l, m'⟩]) m' := by
  obtain ⟨hreads, hresponse, hphase⟩ := hfresh
  obtain ⟨notes, -, happlied⟩ := hm.applied hstep rfl
  have hsame : (contentOf m l).response = m.tx.response ∧
      (contentOf m l).responseParsePhase = m.tx.responseParsePhase := by
    obtain ⟨op, c⟩ := l
    cases op <;> first
      | exact absurd rfl hop
      | exact ⟨rfl, rfl⟩
      | (rw [contentOf]; dsimp only; split_ifs <;> exact ⟨rfl, rfl⟩)
  refine ⟨by rw [remoteReads, readsOf_append_of_ne hop]; exact hreads, ?_, ?_⟩
  · exact (congrArg Content.response happlied.content).trans (hsame.1.trans hresponse)
  · exact (congrArg Content.responseParsePhase happlied.content).trans (hsame.2.trans hphase)

/-- **One step of the exchange.** -/
theorem says_step (hm : Control m) (hknown : Says h m l.operation) (hstep : system.step m l m')
    {op : Operation} (hop : op ∈ m'.pending) : Says (h ++ [⟨m, l, m'⟩]) m' op := by
  by_cases hd : l.operation.direction = none
  · rw [hm.pending hstep hd] at hop
    obtain ⟨notes, -, happlied⟩ := hm.applied hstep rfl
    have hcontent := happlied.content
    obtain ⟨o, c⟩ := l
    cases o with
    | readClientRequest =>
      obtain ⟨hscan, hfresh⟩ := hknown
      have hfresh' := hfresh.step hm hstep (by simp)
      obtain ⟨hok, hread⟩ := operations_of_readClientRequest hop
      rcases hread with ⟨rfl, hnone⟩ | ⟨callback, rfl⟩
      · refine ⟨?_, hfresh'⟩
        have hcursor : m'.requestCursor = (scanner.scan m.requestCursor c.data).state := by
          refine requestCursor_of_content (m := m) (isSome_phase_scan rfl c.data) ?_
          rw [hcontent, contentOf, hok]
          rfl
        have hreads : clientReads (h ++ [⟨m, ⟨.readClientRequest, c⟩, m'⟩]) =
            clientReads h ++ [c.data] :=
          readsOf_append_of_read (t := ⟨m, ⟨.readClientRequest, c⟩, m'⟩) hok
        rw [hreads, scan_flatten_append hscan, hcursor]
        exact scan_eq_of_verdict_none hnone
      · exact hfresh'
    | resolve callback =>
      have hfresh' := Fresh.step hknown hm hstep (by simp)
      rcases operations_of_resolve hop with ⟨callback', rfl⟩ | ⟨ec, success, bytes, rfl⟩
      · exact hfresh'
      · trivial
    | connect callback =>
      have hfresh' := Fresh.step hknown hm hstep (by simp)
      rcases operations_of_connect hop with ⟨bytes, rfl⟩ | ⟨ec, success, bytes, rfl⟩
      · exact hfresh'
      · trivial
    | sendRequest bytes =>
      obtain ⟨hreads, hresponse, hphase⟩ := Fresh.step hknown hm hstep (by simp)
      obtain ⟨hok, rfl⟩ := operations_of_sendRequest hop
      have hcontent' : m'.content =
          { m.content with rawInput := [], parser := m.tx.parser.resetForResponse } := by
        rw [hcontent, contentOf]
        exact if_neg (by simp [hok])
      have hraw : m'.tx.rawInput = [] := congrArg Content.rawInput hcontent'
      have hparser : m'.tx.parser = m.tx.parser.resetForResponse :=
        congrArg Content.parser hcontent'
      have hcursor : m'.responseCursor = .start .response {} := by
        rw [Machine.responseCursor, hparser, hresponse, hphase]
        rfl
      show m'.tx.rawInput = _ ∧ scanner.scan _ _ = _
      rw [hreads, hraw, hcursor]
      exact ⟨rfl, rfl⟩
    | readRemoteResponse =>
      obtain ⟨hraw, hscan⟩ := hknown
      obtain ⟨hok, hread⟩ := operations_of_readRemoteResponse hop
      have hreads : remoteReads (h ++ [⟨m, ⟨.readRemoteResponse, c⟩, m'⟩]) =
          remoteReads h ++ [c.data] :=
        readsOf_append_of_read (t := ⟨m, ⟨.readRemoteResponse, c⟩, m'⟩) hok
      have hcontent' : m'.content =
          { (m.setResponseCursor (scanner.scan m.responseCursor c.data).state).content with
            rawInput := m.tx.rawInput ++ c.data } := by
        rw [hcontent, contentOf]
        exact if_neg (by simp [hok])
      have hflatten : (remoteReads h ++ [c.data]).flatten = m.tx.rawInput ++ c.data := by
        rw [hraw, List.flatten_append, List.flatten_singleton]
      rcases hread with ⟨rfl, hnone⟩ | ⟨rfl, hvalid⟩
      · have hcursor : m'.responseCursor = (scanner.scan m.responseCursor c.data).state :=
          responseCursor_of_content (isSome_phase_scan rfl c.data) hcontent'
        have hraw' : m'.tx.rawInput = m.tx.rawInput ++ c.data :=
          congrArg Content.rawInput hcontent'
        refine ⟨by rw [hreads, hflatten, hraw'], ?_⟩
        rw [hreads, scan_flatten_append hscan, hcursor]
        exact scan_eq_of_verdict_none hnone
      · refine ⟨by rw [hreads, hflatten], remoteReads h, c.data, hreads, by rw [hscan], ?_⟩
        rw [hreads, scan_flatten_append hscan]
        exact hvalid
    | sendResponse bytes => exact absurd hop (by grind [effectOf, Effect.operations])
    | connectReply ec success bytes =>
      refine says_of_direction ?_
      grind [effectOf, Effect.operations, Operation.direction]
    | tunnelRead d | tunnelWrite d => exact absurd hd (Option.some_ne_none d)
  · exact says_of_direction (hm.direction hstep hd hop)

/-- **What a run has read** is what its pending operations say. -/
theorem says_of_run (hrun : system.Run h m) {op : Operation} (hop : op ∈ m.pending) :
    Says h m op := by
  induction hrun generalizing op with
  | start hm =>
    obtain rfl := init_iff.1 hm
    obtain rfl : op = .readClientRequest := by simpa [begun] using hop
    exact ⟨rfl, rfl, rfl, rfl⟩
  | move hrun hstep ih => exact says_step (control_of_run hrun) (ih hstep.1) hstep hop

/-! ### The messages stored -/

/-- The message that the parser has stored when it is given some bytes all at once. -/
def messageIn (mode : Mode) (bytes : QByteArray) : HttpMessage :=
  (parse (Cursor.start mode {}).forget bytes).2.1.message

theorem messageIn_eq (mode : Mode) (bytes : QByteArray) :
    messageIn mode bytes = (scanner.scan (.start mode {}) bytes).state.message := by
  rw [messageIn, parse_eq_scan rfl, scan_forget]
  rfl

/-- An operation that fails stores nothing. -/
theorem content_of_error (hm : Control m) (hstep : system.step m l m')
    (herr : l.completion.ec.isError = true) :
    m'.tx.request = m.tx.request ∧ m'.tx.response = m.tx.response := by
  obtain ⟨notes, -, happlied⟩ := hm.applied hstep rfl
  have hsame : contentOf m l = m.content := by
    rw [contentOf]
    split <;> simp [herr]
  have hcontent := happlied.content.trans hsame
  exact ⟨congrArg Content.request hcontent, congrArg Content.response hcontent⟩

/-- A handler keeps the message that it does not read. -/
theorem contentOf_of_ne (m : Machine) (l : Label) :
    (l.operation ≠ .readClientRequest → (contentOf m l).request = m.tx.request) ∧
      (l.operation ≠ .readRemoteResponse → (contentOf m l).response = m.tx.response) := by
  obtain ⟨op, c⟩ := l
  constructor
  all_goals
    intro hop
    cases op <;> first
      | exact absurd rfl hop
      | rfl
      | (rw [contentOf]; dsimp only; split_ifs <;> rfl)

/-- Only a read of the request changes the request. -/
theorem request_of_step (hm : Control m) (hstep : system.step m l m')
    (hop : l.operation ≠ .readClientRequest) : m'.tx.request = m.tx.request := by
  obtain ⟨notes, -, happlied⟩ := hm.applied hstep rfl
  exact (congrArg Content.request happlied.content).trans ((contentOf_of_ne m l).1 hop)

/-- Only a read of the response changes the response. -/
theorem response_of_step (hm : Control m) (hstep : system.step m l m')
    (hop : l.operation ≠ .readRemoteResponse) : m'.tx.response = m.tx.response := by
  obtain ⟨notes, -, happlied⟩ := hm.applied hstep rfl
  exact (congrArg Content.response happlied.content).trans ((contentOf_of_ne m l).2 hop)

/-- A message that only its reads change is what one scan of all of them says. -/
theorem message_of_run (op : Operation) (message : Machine → HttpMessage)
    (cursor : Machine → Cursor) {start : Cursor} (hbegun : message begun = start.message)
    (hsame : ∀ m l m', Control m → system.step m l m' →
      l.operation ≠ op ∨ l.completion.ec.isError = true → message m' = message m)
    (hread : ∀ h m c m', system.Run h m → system.step m ⟨op, c⟩ m' → c.ec.isError = false →
      scanner.scan start (readsOf op h).flatten = ⟨none, cursor m, []⟩ ∧
        message m' = (scanner.scan (cursor m) c.data).state.message)
    (hrun : system.Run h m) :
    message m = (scanner.scan start (readsOf op h).flatten).state.message := by
  induction hrun with
  | start hm =>
    obtain rfl := init_iff.1 hm
    exact hbegun
  | @move h m m' l hrun hstep ih =>
    have hm := control_of_run hrun
    obtain ⟨o, c⟩ := l
    by_cases hop : o = op
    · subst hop
      cases herr : c.ec.isError with
      | true =>
        rw [hsame _ _ _ hm hstep (.inr herr), readsOf_append_of_error herr]
        exact ih
      | false =>
        obtain ⟨hscan, hmessage⟩ := hread _ _ _ _ hrun hstep herr
        have hreads : readsOf o (h ++ [⟨m, ⟨o, c⟩, m'⟩]) = readsOf o h ++ [c.data] :=
          readsOf_append_of_read (t := ⟨m, ⟨o, c⟩, m'⟩) herr
        rw [hmessage, hreads, scan_flatten_append hscan]
    · rw [hsame _ _ _ hm hstep (.inl hop), readsOf_append_of_ne (t := ⟨m, ⟨o, c⟩, m'⟩) hop]
      exact ih

/-- **The request** is what all the bytes of the client say. -/
theorem request_eq_of_run (hrun : system.Run h m) :
    m.tx.request = messageIn .request (clientReads h).flatten := by
  rw [messageIn_eq]
  refine message_of_run .readClientRequest (fun m ↦ m.tx.request) Machine.requestCursor rfl
    (fun m l m' hm hstep hl ↦ ?_) (fun h m c m' hrun hstep hok ↦ ?_) hrun
  · obtain hop | herr := hl
    · exact request_of_step hm hstep hop
    · exact (content_of_error hm hstep herr).1
  · obtain ⟨notes, -, happlied⟩ := (control_of_run hrun).applied hstep rfl
    have hknown := says_of_run hrun hstep.1
    refine ⟨hknown.1, (congrArg Content.request happlied.content).trans ?_⟩
    rw [contentOf, hok]
    rfl

/-- **The response** is what all the bytes of the remote say. -/
theorem response_eq_of_run (hrun : system.Run h m) :
    m.tx.response = messageIn .response (remoteReads h).flatten := by
  rw [messageIn_eq]
  refine message_of_run .readRemoteResponse (fun m ↦ m.tx.response) Machine.responseCursor rfl
    (fun m l m' hm hstep hl ↦ ?_) (fun h m c m' hrun hstep hok ↦ ?_) hrun
  · obtain hop | herr := hl
    · exact response_of_step hm hstep hop
    · exact (content_of_error hm hstep herr).2
  · obtain ⟨notes, -, happlied⟩ := (control_of_run hrun).applied hstep rfl
    have hknown := says_of_run hrun hstep.1
    refine ⟨hknown.2, (congrArg Content.response happlied.content).trans ?_⟩
    rw [contentOf, hok]
    rfl

end Transaction

end Amanuensis
