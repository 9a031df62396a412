import Amanuensis.Http.LegalBodies
import Amanuensis.Transaction.Exchange
import Amanuensis.Transaction.Failures

/-!
# The relayed response

What is written to the client is everything read from the remote by the end of the read in which the
response ends: the response, and what else that read has brought (`relayed_of_run`).

Where the response ends is decided by the fields that the parser has stored. RFC 7230 also looks at
the request method and the status code, and lets a response without a length end with the
connection; `endsByRfc_iff` says of every head of the RFC, read by the parser or not, when the two
agree.
-/

namespace Amanuensis

namespace Transaction

open HttpMessageParser LabelledSystem

variable {m m' : Machine} {l : Label} {h : List (Move Machine Label)}

/-! ### What is relayed -/

/-- The stream begins with these bytes, the last of which is the one at which the parser returns
`Valid`. -/
def BeginsWithResponse (stream response : QByteArray) : Prop :=
  ∃ c rest, parse (Cursor.start .response {}).forget stream = (.valid, c, rest) ∧
    stream = response ++ rest

/-- **What is relayed**: of whatever the remote sends, the response at its beginning, followed by
the surplus of the read in which that response ends. -/
theorem relayed_of_run (hrun : system.Run h m) {bytes : QByteArray}
    (hsend : .sendResponse bytes ∈ m.pending) {stream : QByteArray}
    (hstream : (remoteReads h).flatten <+: stream) :
    ∃ response surplus last, BeginsWithResponse stream response ∧ bytes = response ++ surplus ∧
      bytes = (remoteReads h).flatten ∧ (remoteReads h).getLast? = some last ∧
      surplus <:+ last ∧ surplus.length < last.length := by
  obtain ⟨hbytes, earlier, last, hreads, hnone, hvalid⟩ := says_of_run hrun hsend
  obtain ⟨more, hmore⟩ := hstream
  have hvalid : (scanner.scan (.start .response {}) (remoteReads h).flatten).verdict =
      some .valid := outcomeOf_eq_valid_iff.1 hvalid
  -- The verdict is reached in the last read.
  have hflatten : (remoteReads h).flatten = earlier.flatten ++ last := by
    rw [hreads, List.flatten_append, List.flatten_singleton]
  have hlast : scanner.scan (.start .response {}) (remoteReads h).flatten =
      scanner.scan (scanner.scan (.start .response {}) earlier.flatten).state last := by
    rw [hflatten, scanner.scan_append_of_none hnone]
  have hsuffix := scanner.rest_suffix
    (scanner.scan (.start .response {}) earlier.flatten).state last
  have hlength := scanner.length_rest_lt_of_verdict_some (hlast ▸ hvalid)
  rw [← hlast] at hsuffix hlength
  obtain ⟨response, hresponse⟩ := scanner.rest_suffix (.start .response {}) (remoteReads h).flatten
  have hparse : parse (Cursor.start .response {}).forget stream =
      (.valid, (scanner.scan (.start .response {}) (remoteReads h).flatten).state.forget,
        (scanner.scan (.start .response {}) (remoteReads h).flatten).rest ++ more) := by
    rw [parse_eq_scan rfl, scan_forget, ← hmore, scanner.scan_append_of_some hvalid]
    rfl
  refine ⟨response, _, last, ⟨_, _, hparse, ?_⟩, ?_, hbytes, ?_, hsuffix, hlength⟩
  · rw [← List.append_assoc, hresponse, hmore]
  · rw [hbytes, hresponse]
  · rw [hreads, List.getLast?_concat]

/-- A response without a body, and two bytes. -/
def surplusResponse : QByteArray := asciiBytes "HTTP/1.1 204 No Content\r\n\r\nXX"

/-- The two bytes are relayed when they come with the response. -/
theorem surplus_relayed :
    ∃ h m, system.Run h m ∧ .sendResponse surplusResponse ∈ m.pending ∧
      (remoteReads h).flatten = surplusResponse ∧
      ¬ BeginsWithResponse surplusResponse surplusResponse := by
  obtain ⟨h, m, hrun, hsend, hreads⟩ := exists_run_of_follow
    (requestLabels ++ [⟨.readRemoteResponse, { data := surplusResponse }⟩])
    (fun h m ↦ .sendResponse surplusResponse ∈ m.pending ∧
      (remoteReads h).flatten = surplusResponse) (by decide +kernel)
  refine ⟨h, m, hrun, hsend, hreads, ?_⟩
  rintro ⟨c, rest, hparse, hstream⟩
  have hrest : (parse (Cursor.start .response {}).forget surplusResponse).2.2 =
      asciiBytes "XX" := by decide +kernel
  rw [hparse] at hrest
  obtain rfl : rest = [] := List.self_eq_append_right.1 hstream
  have hne : asciiBytes "XX" ≠ [] := by decide
  exact absurd hrest.symm hne

/-- They are not when they come later. -/
theorem response_relayed :
    ∃ h m, system.Run h m ∧
      .sendResponse (asciiBytes "HTTP/1.1 204 No Content\r\n\r\n") ∈ m.pending ∧
      ∃ response surplus last, BeginsWithResponse surplusResponse response ∧
        asciiBytes "HTTP/1.1 204 No Content\r\n\r\n" = response ++ surplus ∧
        asciiBytes "HTTP/1.1 204 No Content\r\n\r\n" = (remoteReads h).flatten ∧
        (remoteReads h).getLast? = some last ∧
        surplus <:+ last ∧ surplus.length < last.length := by
  obtain ⟨h, m, hrun, hsend, hreads⟩ := exists_run_of_follow
    (requestLabels ++ [⟨.readRemoteResponse, { data := asciiBytes "HTTP/1.1 204 No" }⟩,
      ⟨.readRemoteResponse, { data := asciiBytes " Content\r\n\r\n" }⟩])
    (fun h m ↦ .sendResponse (asciiBytes "HTTP/1.1 204 No Content\r\n\r\n") ∈ m.pending ∧
      (remoteReads h).flatten = asciiBytes "HTTP/1.1 204 No Content\r\n\r\n") (by decide +kernel)
  exact ⟨h, m, hrun, hsend, relayed_of_run hrun hsend ⟨asciiBytes "XX", by rw [hreads]; rfl⟩⟩

/-! ### Feeding a response -/

/-- A read of the response. -/
def readLabel (data : QByteArray) : Label := ⟨.readRemoteResponse, { data := data }⟩

/-- Waiting for the response, with the parser at a cursor. -/
structure Awaiting (raw : QByteArray) (cursor : Cursor) (m : Machine) : Prop where
  control : Control m
  pending : m.pending = [.readRemoteResponse]
  raw : m.tx.rawInput = raw
  cursor : m.responseCursor = cursor

variable {raw data : QByteArray} {cursor : Cursor}

theorem Awaiting.not_aborts (hwait : Awaiting raw cursor m)
    (hgood : ¬ IsAbort (outcomeOf (scanner.scan cursor data).verdict)) :
    ¬ Aborts m (readLabel data) := by
  rintro ⟨-, haborts⟩
  rw [← hwait.cursor] at hgood
  exact hgood haborts

/-- The content after a read of the response. -/
theorem Awaiting.content (hwait : Awaiting raw cursor m)
    (hstep : system.step m (readLabel data) m') :
    m'.content =
      { (m.setResponseCursor (scanner.scan cursor data).state).content with
        rawInput := raw ++ data } := by
  obtain ⟨notes, -, happlied⟩ := hwait.control.applied hstep rfl
  rw [happlied.content, ← hwait.raw, ← hwait.cursor]
  rfl

/-- What is pending after a read of the response. -/
theorem Awaiting.pending_of_step (hwait : Awaiting raw cursor m)
    (hstep : system.step m (readLabel data) m') :
    m'.pending =
      match outcomeOf (scanner.scan cursor data).verdict with
      | .incomplete => [.readRemoteResponse]
      | .valid => [.sendResponse (raw ++ data)]
      | _ => [] := by
  have heffect : effectOf m (readLabel data) =
      match outcomeOf (scanner.scan m.responseCursor data).verdict with
      | .incomplete => .proceed [.readRemoteResponse]
      | .valid => .proceed [.sendResponse (m.tx.rawInput ++ data)]
      | _ => .fail ProxyError.malformedResponse.makeErrorCode := rfl
  rw [hwait.control.pending hstep rfl, heffect, hwait.raw, hwait.cursor]
  cases outcomeOf (scanner.scan cursor data).verdict <;> rfl

/-- A read that does not end the response. -/
theorem Awaiting.next_of_none (hwait : Awaiting raw cursor m) (hphase : cursor.phase.isSome = true)
    (hnone : (scanner.scan cursor data).verdict = none) :
    ∃ m', next m (readLabel data) = some m' ∧
      Awaiting (raw ++ data) (scanner.scan cursor data).state m' := by
  have houtcome : outcomeOf (scanner.scan cursor data).verdict = .incomplete := by rw [hnone]; rfl
  obtain ⟨m', hstep⟩ := hwait.control.exists_step (l := readLabel data)
    (by rw [hwait.pending]; exact List.mem_singleton_self _)
    (hwait.not_aborts (by rw [houtcome]; exact id))
  have hcontent := hwait.content hstep
  have hpending := hwait.pending_of_step hstep
  rw [houtcome] at hpending
  exact ⟨m', next_of_step hstep, (hwait.control.performs hstep).control, hpending,
    congrArg Content.rawInput hcontent,
    responseCursor_of_content (isSome_phase_scan hphase data) hcontent⟩

/-- A read that ends the response. -/
theorem Awaiting.next_of_valid (hwait : Awaiting raw cursor m)
    (hvalid : (scanner.scan cursor data).verdict = some .valid) :
    ∃ m', next m (readLabel data) = some m' ∧ m'.pending = [.sendResponse (raw ++ data)] ∧
      m'.tx.response = (scanner.scan cursor data).state.message := by
  have houtcome : outcomeOf (scanner.scan cursor data).verdict = .valid := by rw [hvalid]; rfl
  obtain ⟨m', hstep⟩ := hwait.control.exists_step (l := readLabel data)
    (by rw [hwait.pending]; exact List.mem_singleton_self _)
    (hwait.not_aborts (by rw [houtcome]; exact id))
  have hpending := hwait.pending_of_step hstep
  rw [houtcome] at hpending
  exact ⟨m', next_of_step hstep, hpending, congrArg Content.response (hwait.content hstep)⟩

/-- **Reads before the end of the response.** -/
theorem Awaiting.follow (hwait : Awaiting raw cursor m) (hphase : cursor.phase.isSome = true)
    {reads : List QByteArray} (hnone : (scanner.scan cursor reads.flatten).verdict = none) :
    ∃ h' m', follow next m (reads.map readLabel) = some (h', m') ∧
      Awaiting (raw ++ reads.flatten) (scanner.scan cursor reads.flatten).state m' := by
  induction reads generalizing m raw cursor with
  | nil => exact ⟨[], m, rfl, by simpa using hwait⟩
  | cons data reads ih =>
    have hfirst : (scanner.scan cursor data).verdict = none := by
      rcases hv : (scanner.scan cursor data).verdict with - | w
      · rfl
      · rw [List.flatten_cons, scanner.verdict_append_of_some hv] at hnone
        exact absurd hnone (Option.some_ne_none w)
    obtain ⟨m₁, hnext, hwait₁⟩ := hwait.next_of_none hphase hfirst
    rw [List.flatten_cons, scanner.scan_append_of_none hfirst] at hnone
    obtain ⟨h', m', hfollow, hwait'⟩ := ih hwait₁ (isSome_phase_scan hphase data) hnone
    refine ⟨⟨m, readLabel data, m₁⟩ :: h', m', ?_, ?_⟩
    · exact follow_cons hnext hfollow
    · rwa [List.flatten_cons, scanner.scan_append_of_none hfirst, ← List.append_assoc]

/-! ### The end of the response -/

/-- The reads up to the one that brings the end of some bytes. -/
def Covers (upTo : List QByteArray) (bytes : QByteArray) : Prop :=
  ∃ earlier last, upTo = earlier ++ [last] ∧ earlier.flatten.length < bytes.length ∧
    bytes.length ≤ upTo.flatten.length

/-- The remote ends its stream. -/
def eofLabel : Label := ⟨.readRemoteResponse, { ec := .eof }⟩

/-- A response without a body, whatever its fields say. -/
def HasNoBody (m : Machine) (head : LegalHead) : Prop :=
  m.tx.request.method = QString.ofString "HEAD" ∨ head.statusCode = 204 ∨ head.statusCode = 304

/-- A final response whose fields do not give a length. -/
def HasNoLength (head : LegalHead) : Prop :=
  200 ≤ head.statusCode ∧ head.valuesOf (QString.ofString "Transfer-Encoding") = [] ∧
    head.valuesOf (QString.ofString "Content-Length") = []

/-- The response is complete as soon as the end of its head has been read. -/
def CompletesAtHead (m : Machine) (head : LegalHead) (reads : List QByteArray) : Prop :=
  ∃ upTo h' m', upTo <+: reads ∧ Covers upTo head.render ∧
    follow next m (upTo.map readLabel) = some (h', m') ∧ .sendResponse upTo.flatten ∈ m'.pending

/-- All bytes up to the end of the stream are relayed, and stored as the body. -/
def DeliversBody (m : Machine) (head : LegalHead) (body : QByteArray) (reads : List QByteArray) :
    Prop :=
  ∃ labels h' m', labels <+: reads.map readLabel ++ [eofLabel] ∧
    follow next m labels = some (h', m') ∧ .sendResponse (head.render ++ body) ∈ m'.pending ∧
    m'.tx.response.body = body

/-- **The end of a response by RFC 7230, section 3.3.3**, where no length decides: for a remote that
sends a head and some bytes and then ends its stream, however that is cut into reads. -/
def EndsByRfc (m : Machine) (head : LegalHead) (body : QByteArray) : Prop :=
  ∀ reads : List QByteArray, (∀ r ∈ reads, r ≠ []) → reads.flatten = head.render ++ body →
    (HasNoBody m head → CompletesAtHead m head reads) ∧
      (¬ HasNoBody m head → HasNoLength head → DeliversBody m head body reads)

/-- Some read brings the end. -/
theorem exists_covers {reads : List QByteArray} {bytes : QByteArray} (hne : bytes ≠ [])
    (hlength : bytes.length ≤ reads.flatten.length) :
    ∃ upTo, upTo <+: reads ∧ Covers upTo bytes := by
  suffices hcover : ∀ n, 0 < n → n ≤ reads.flatten.length →
      ∃ earlier last, earlier ++ [last] <+: reads ∧ earlier.flatten.length < n ∧
        n ≤ (earlier ++ [last]).flatten.length by
    obtain ⟨earlier, last, hpre, hlt, hle⟩ :=
      hcover bytes.length (List.length_pos_iff.2 hne) hlength
    exact ⟨earlier ++ [last], hpre, earlier, last, rfl, hlt, hle⟩
  clear hlength hne
  induction reads with
  | nil =>
    intro n hpos hle
    exact absurd (hpos.trans_le hle) (by simp)
  | cons data reads ih =>
    intro n hpos hle
    by_cases hdata : n ≤ data.length
    · exact ⟨[], data, by simp, by simpa using hpos, by simpa using hdata⟩
    · rw [List.flatten_cons, List.length_append] at hle
      obtain ⟨earlier, last, hpre, hlt, hle'⟩ := ih (n - data.length) (by omega) (by omega)
      refine ⟨data :: earlier, last, List.cons_prefix_cons.2 ⟨rfl, hpre⟩, ?_, ?_⟩
      · rw [List.flatten_cons, List.length_append]
        omega
      · rw [List.cons_append, List.flatten_cons, List.length_append]
        omega

variable {head : Head} {body : QByteArray}

/-- The head is not over before its last byte. -/
theorem verdict_none_of_length_lt (hhead : head.WellFormed .response) {bytes : QByteArray}
    (hpre : bytes <+: head.render ++ body) (hlt : bytes.length < head.render.length) :
    (scanner.scan (.start .response {}) bytes).verdict = none := by
  have hinit :
      (scanner.scan (Cursor.start .response {}).forget head.renderInit).verdict = none := by
    have hread := (reads_head .response {}).complete head hhead []
    rw [List.append_nil] at hread
    rw [hread]
    rfl
  rw [scan_forget] at hinit
  have hrender : head.renderInit <+: head.render ++ body :=
    (List.prefix_append _ _).trans (List.prefix_append _ _)
  have hle : bytes.length ≤ head.renderInit.length := by
    rw [Head.render, List.length_append, List.length_singleton] at hlt
    exact Nat.le_of_lt_succ hlt
  obtain ⟨more, hmore⟩ := List.prefix_of_prefix_length_le hpre hrender hle
  rcases hv : (scanner.scan (.start .response {}) bytes).verdict with - | w
  · rfl
  · rw [← hmore, scanner.verdict_append_of_some hv] at hinit
    exact absurd hinit (Option.some_ne_none w)

/-- **At the end of the head** the framing decides. -/
theorem outcome_head_eq_valid_iff (hhead : head.WellFormed .response) :
    outcomeOf (scanner.scan (.start .response {}) head.render).verdict = .valid ↔
      framing head.headers = .none := by
  have hscan := scan_head hhead {} []
  rw [List.append_nil, scan_forget] at hscan
  have hverdict := congrArg Scanner.Scan.verdict hscan
  dsimp only at hverdict
  rw [hverdict]
  cases framing head.headers <;> simp [outcomeOf]

theorem scan_of_framing_none (hhead : head.WellFormed .response)
    (hframing : framing head.headers = .none) (extra : QByteArray) :
    (scanner.scan (.start .response {}) (head.render ++ extra)).verdict = some .valid ∧
      (scanner.scan (.start .response {}) (head.render ++ extra)).state.message =
        head.message := by
  have hscan := scan_head hhead {} extra
  rw [hframing, scan_forget] at hscan
  have hverdict := congrArg Scanner.Scan.verdict hscan
  have hstate := congrArg (fun r ↦ Cursor.message (Scanner.Scan.state r)) hscan
  exact ⟨hverdict, hstate⟩

/-- The machine that waits for the first byte of the response. -/
theorem awaiting_of_run (hrun : system.Run h m) (hop : .readRemoteResponse ∈ m.pending)
    (hreads : remoteReads h = []) : Awaiting [] (.start .response {}) m := by
  have hcontrol := control_of_run hrun
  obtain ⟨hraw, hscan⟩ := says_of_run hrun hop
  rw [hreads] at hraw hscan
  have hcursor : Cursor.start .response {} = m.responseCursor :=
    congrArg Scanner.Scan.state hscan
  exact ⟨hcontrol, (hcontrol.stage.expected hop rfl).1, hraw, hcursor.symm⟩

/-- **Without framing** the response is complete with the read that ends its head. -/
theorem Awaiting.follow_covers (hwait : Awaiting [] (.start .response {}) m)
    (hhead : head.WellFormed .response) (hframing : framing head.headers = .none)
    {upTo : List QByteArray} (hcovers : Covers upTo head.render)
    (hpre : upTo.flatten <+: head.render ++ body) :
    ∃ h' m', LabelledSystem.follow next m (upTo.map readLabel) = some (h', m') ∧
      m'.pending = [.sendResponse upTo.flatten] ∧ m'.tx.response = head.message := by
  obtain ⟨earlier, last, rfl, hlt, hle⟩ := hcovers
  have hflatten : (earlier ++ [last]).flatten = earlier.flatten ++ last := by simp
  rw [hflatten] at hpre hle
  have hnone := verdict_none_of_length_lt hhead ((List.prefix_append _ _).trans hpre) hlt
  obtain ⟨h₁, m₁, hfollow, hwait₁⟩ := hwait.follow rfl hnone
  -- The last read reaches the end of the head.
  obtain ⟨extra, hextra⟩ := List.prefix_of_prefix_length_le (List.prefix_append _ _) hpre hle
  have hscan := scan_of_framing_none hhead hframing extra
  rw [hextra, scanner.scan_append_of_none hnone] at hscan
  obtain ⟨m', hnext, hpending, hresponse⟩ := hwait₁.next_of_valid hscan.1
  refine ⟨h₁ ++ [⟨m₁, readLabel last, m'⟩], m', ?_, ?_, hresponse.trans hscan.2⟩
  · rw [List.map_append]
    exact follow_append hfollow (follow_cons hnext rfl)
  · rw [hpending, hflatten, List.nil_append]

variable {legal : LegalHead}

/-- The reads that end with the head. -/
def cutAtHead (legal : LegalHead) (body : QByteArray) : List QByteArray :=
  legal.render :: if body = [] then [] else [body]

theorem flatten_cutAtHead : (cutAtHead legal body).flatten = legal.render ++ body := by
  rw [cutAtHead]
  split_ifs with hbody <;> simp [hbody]

theorem ne_nil_of_mem_cutAtHead {read : QByteArray} (hread : read ∈ cutAtHead legal body) :
    read ≠ [] := by
  rw [cutAtHead] at hread
  rcases List.mem_cons.1 hread with rfl | hread
  · exact legal.render_ne_nil
  · split_ifs at hread with hbody
    · exact absurd hread List.not_mem_nil
    · rwa [List.mem_singleton.1 hread]

/-- What is about to be relayed has been accepted. -/
theorem valid_of_sendResponse (hrun : system.Run h m) {bytes : QByteArray}
    (hsend : .sendResponse bytes ∈ m.pending) :
    (scanner.scan (.start .response {}) bytes).verdict = some .valid ∧
      m.tx.response = (scanner.scan (.start .response {}) bytes).state.message := by
  obtain ⟨rfl, -, -, -, -, hvalid⟩ := says_of_run hrun hsend
  exact ⟨outcomeOf_eq_valid_iff.1 hvalid, (response_eq_of_run hrun).trans (messageIn_eq _ _)⟩

/-- **A head that is accepted at its end** has been read, and is not framed. -/
theorem framing_of_valid_head
    (hvalid : (scanner.scan (.start .response {}) legal.render).verdict = some .valid) :
    legal.IsRead ∧ framing legal.parsed.headers = .none := by
  obtain ⟨w, hw, -, ⟨z, heq⟩, -⟩ := exists_wireMessage_of_scan hvalid
  have hlength := congrArg List.length heq
  rw [WireMessage.render, List.append_assoc, ← List.append_nil legal.render] at heq
  obtain ⟨hread, -, -⟩ | ⟨-, -, hlonger⟩ := LegalHead.eq_parsed_of_render_append_eq hw.head heq
  · refine ⟨hread, (outcome_head_eq_valid_iff (LegalHead.wellFormed_parsed hread)).1 ?_⟩
    rw [LegalHead.render_parsed hread, hvalid]
    rfl
  · rw [WireMessage.render, List.length_append, List.length_append] at hlength
    omega

/-- **A body that ends with the stream** is stored only if it is empty. -/
theorem body_eq_nil_of_valid (hnoLength : HasNoLength legal)
    (hvalid : (scanner.scan (.start .response {}) (legal.render ++ body)).verdict = some .valid)
    (hbody : (scanner.scan (.start .response {}) (legal.render ++ body)).state.message.body =
      body) : legal.IsRead ∧ body = [] := by
  obtain ⟨⟨k, w⟩, hw, -, ⟨z, heq⟩, hmessage⟩ := exists_wireMessage_of_scan hvalid
  rw [hmessage] at hbody
  have hcontent : w.content = body := hbody
  have hlength := congrArg List.length heq
  rw [WireMessage.render, List.append_assoc] at heq
  obtain ⟨hread, rfl, -⟩ | ⟨-, -, hlonger⟩ := LegalHead.eq_parsed_of_render_append_eq hw.head heq
  · have hwf : w.WellFormed (framing legal.parsed.headers) := hw.body
    rw [LegalHead.framing_parsed_eq_none hnoLength.2.1 hnoLength.2.2] at hwf
    cases w with
    | none => exact ⟨hread, hcontent.symm⟩
    | fixed | chunked => exact hwf.elim
  · -- the parser has read more than the head, which is missing in the body
    have hle := w.length_content_le
    rw [hcontent] at hle
    rw [WireMessage.render, List.length_append, List.length_append, List.length_append] at hlength
    exact absurd hlength (by dsimp only at hlonger ⊢; omega)

/-- A response without a body completes at its head only if that is read and not framed. -/
theorem framing_of_endsByRfc (hrun : system.Run h m) (hrfc : EndsByRfc m legal body)
    (hnoBody : HasNoBody m legal) : legal.IsRead ∧ framing legal.parsed.headers = .none := by
  obtain ⟨upTo, h', m', hpre, ⟨earlier, last, rfl, hlt, -⟩, hfollow, hsend⟩ :=
    (hrfc _ (fun _ ↦ ne_nil_of_mem_cutAtHead) flatten_cutAtHead).1 hnoBody
  cases earlier with
  | nil =>
    obtain rfl : last = legal.render := (List.cons_prefix_cons.1 hpre).1
    have hrun' := hrun.follow (fun _ _ _ ↦ step_of_next) hfollow
    have hvalid := (valid_of_sendResponse hrun' hsend).1
    rw [List.nil_append, List.flatten_singleton] at hvalid
    exact framing_of_valid_head hvalid
  | cons first earlier =>
    obtain rfl : first = legal.render := (List.cons_prefix_cons.1 hpre).1
    rw [List.flatten_cons, List.length_append] at hlt
    omega

/-- A response without a length delivers its body only if it is read and the body is empty. -/
theorem body_eq_nil_of_endsByRfc (hrun : system.Run h m) (hrfc : EndsByRfc m legal body)
    (hnoBody : ¬ HasNoBody m legal) (hnoLength : HasNoLength legal) :
    legal.IsRead ∧ body = [] := by
  obtain ⟨labels, h', m', -, hfollow, hsend, hbody⟩ :=
    (hrfc _ (fun _ ↦ ne_nil_of_mem_cutAtHead) flatten_cutAtHead).2 hnoBody hnoLength
  have hrun' := hrun.follow (fun _ _ _ ↦ step_of_next) hfollow
  obtain ⟨hvalid, hresponse⟩ := valid_of_sendResponse hrun' hsend
  exact body_eq_nil_of_valid hnoLength hvalid (hresponse ▸ hbody)

/-- **When the end of a response is found as RFC 7230 says**: a response without a body has a head
that the parser reads and finds no framing in; a response without a length has a head that the
parser reads, and nothing follows it. -/
theorem endsByRfc_iff (hrun : system.Run h m) (hop : .readRemoteResponse ∈ m.pending)
    (hreads : remoteReads h = []) (legal : LegalHead) (body : QByteArray) :
    EndsByRfc m legal body ↔
      (HasNoBody m legal → legal.IsRead ∧ framing legal.parsed.headers = .none) ∧
        (¬ HasNoBody m legal → HasNoLength legal → legal.IsRead ∧ body = []) := by
  refine ⟨fun hrfc ↦ ⟨framing_of_endsByRfc hrun hrfc, body_eq_nil_of_endsByRfc hrun hrfc⟩,
    fun ⟨hframing, hbody⟩ reads hne hflatten ↦ ?_⟩
  have hwait := awaiting_of_run hrun hop hreads
  have hlength : legal.render.length ≤ reads.flatten.length := by
    rw [hflatten, List.length_append]
    exact Nat.le_add_right _ _
  obtain ⟨upTo, hupTo, hcovers⟩ := exists_covers legal.render_ne_nil hlength
  have hpre : upTo.flatten <+: legal.render ++ body := by
    obtain ⟨later, hlater⟩ := hupTo
    exact ⟨later.flatten, by rw [← List.flatten_append, hlater, hflatten]⟩
  refine ⟨fun hnoBody ↦ ?_, fun hnoBody hnoLength ↦ ?_⟩
  · obtain ⟨hread, hframing⟩ := hframing hnoBody
    have hrender := LegalHead.render_parsed hread
    obtain ⟨h', m', hfollow, hpending, -⟩ := hwait.follow_covers
      (LegalHead.wellFormed_parsed hread) hframing (hrender ▸ hcovers) (hrender ▸ hpre)
    exact ⟨upTo, h', m', hupTo, hcovers, hfollow, by rw [hpending]; exact List.mem_singleton_self _⟩
  · obtain ⟨hread, rfl⟩ := hbody hnoBody hnoLength
    have hrender := LegalHead.render_parsed hread
    obtain ⟨h', m', hfollow, hpending, hresponse⟩ := hwait.follow_covers
      (LegalHead.wellFormed_parsed hread)
      (LegalHead.framing_parsed_eq_none hnoLength.2.1 hnoLength.2.2) (hrender ▸ hcovers)
      (hrender ▸ hpre)
    -- Nothing follows the head, so that the reads that cover it are all there is.
    have hall : upTo.flatten = legal.render ++ [] := by
      obtain ⟨_, _, _, _, hle⟩ := hcovers
      exact hpre.eq_of_length_le (by rwa [List.append_nil])
    refine ⟨upTo.map readLabel, h', m', ?_, hfollow, ?_, ?_⟩
    · exact (hupTo.map readLabel).trans (List.prefix_append _ _)
    · rw [hpending, hall]
      exact List.mem_singleton_self _
    · rw [hresponse]
      exact Head.message_body _

/-- A response head without fields. -/
def bareHead (status reason : String)
    (hbare : (∀ b ∈ asciiBytes status, isDigit b = true) ∧ (asciiBytes status).length = 3 ∧
      ∀ b ∈ asciiBytes reason, isFieldByte b = true) : LegalHead where
  major := ascii '1'
  minor := ascii '1'
  status := asciiBytes status
  reason := asciiBytes reason
  lines := []
  major_digit := by decide
  minor_digit := by decide
  status_digit := hbare.1
  status_length := hbare.2.1
  reason_plain := hbare.2.2
  lines_legal := by simp
  lines_head := by simp

/-- `HTTP/1.1 204 No Content`. -/
def noContentHead : LegalHead := bareHead "204" "No Content" (by decide)

/-- A response without a body and without framing. -/
theorem noContent_endsByRfc :
    ∃ h m, system.Run h m ∧ HasNoBody m noContentHead ∧ EndsByRfc m noContentHead [] := by
  obtain ⟨h, m, hrun, hop, hreads⟩ := exists_run_of_follow requestLabels
    (fun h m ↦ .readRemoteResponse ∈ m.pending ∧ remoteReads h = []) (by decide +kernel)
  have hnoBody : HasNoBody m noContentHead := Or.inr (Or.inl (by decide))
  exact ⟨h, m, hrun, hnoBody, (endsByRfc_iff hrun hop hreads noContentHead []).2
    ⟨fun _ ↦ ⟨by decide +kernel, by decide +kernel⟩, fun hnot ↦ absurd hnoBody hnot⟩⟩

/-- `HTTP/1.1 200 OK`. -/
def okHead : LegalHead := bareHead "200" "OK" (by decide)

/-- A response to `GET` that ends with the connection: its body is not waited for. -/
theorem closeDelimited_not_endsByRfc :
    ∃ h m, system.Run h m ∧ .readRemoteResponse ∈ m.pending ∧ remoteReads h = [] ∧
      HasNoLength okHead ∧ ¬ EndsByRfc m okHead (asciiBytes "hello") := by
  obtain ⟨h, m, hrun, hop, hreads, hmethod⟩ := exists_run_of_follow requestLabels
    (fun h m ↦ .readRemoteResponse ∈ m.pending ∧ remoteReads h = [] ∧
      m.tx.request.method ≠ QString.ofString "HEAD") (by decide +kernel)
  have hnoBody : ¬ HasNoBody m okHead := by
    rintro (hhead | hstatus | hstatus)
    · exact hmethod hhead
    · exact absurd hstatus (by decide)
    · exact absurd hstatus (by decide)
  have hnoLength : HasNoLength okHead := ⟨by decide, by decide, by decide⟩
  refine ⟨h, m, hrun, hop, hreads, hnoLength, fun hrfc ↦ ?_⟩
  exact absurd (body_eq_nil_of_endsByRfc hrun hrfc hnoBody hnoLength).2 (by decide)

end Transaction

end Amanuensis
