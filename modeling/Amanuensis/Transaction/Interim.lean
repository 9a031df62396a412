import Mathlib.Data.List.Infix
import Amanuensis.Transaction.Relay

/-!
# Interim responses

A remote may send any number of responses with a status between 100 and 199 before its final one.
The parser returns `Valid` at the end of the first of them, and the transaction neither resets it
nor reads on, so that what a transaction takes for the response is the first message of the stream,
whatever its status. It is the final response exactly when no interim response precedes it and the
transaction does not stop reading before its end, which it does where the parser has not stored what
delimits the response and the rest of it comes in a later read (`endsWithFinal_iff`).
-/

namespace Amanuensis

namespace Transaction

open HttpMessageParser LabelledSystem

variable {m m' : Machine} {l : Label} {h : List (Move Machine Label)}

/-! ### The response of a transaction -/

/-- The bytes of a response that a move has written to the client. -/
def writeOf (t : Move Machine Label) : Option QByteArray :=
  match t.label.operation with
  | .sendResponse bytes => if t.label.completion.ec.isError = false then some bytes else none
  | _ => none

/-- What has been written to the client, for a response. -/
def responseWrites (h : List (Move Machine Label)) : List QByteArray := h.filterMap writeOf

theorem responseWrites_of_not_written (hwritten : ¬ ResponseWritten h) : responseWrites h = [] := by
  refine List.filterMap_eq_nil_iff.2 fun t ht ↦ ?_
  rw [writeOf]
  split
  · next bytes hop => exact if_neg fun hok ↦ hwritten ⟨t, ht, bytes, hop, hok⟩
  · rfl

theorem responseWritten_of_ne_nil (hne : responseWrites h ≠ []) : ResponseWritten h :=
  not_imp_comm.1 responseWrites_of_not_written hne

/-- A transaction that has written its response does nothing more. -/
theorem pending_of_written (hrun : system.Run h m) (hwritten : ResponseWritten h) :
    m.pending = [] := by
  induction hrun with
  | start _ => exact absurd hwritten (by simp [ResponseWritten])
  | @move h s _ l hrun hstep ih =>
    rcases responseWritten_append.1 hwritten with hold | ⟨bytes, hop, hok⟩
    · exact absurd hstep.1 (by simp [ih hold])
    · obtain ⟨op, c⟩ := l
      obtain rfl : op = .sendResponse bytes := hop
      have he : effectOf s ⟨.sendResponse bytes, c⟩ = .finish := if_neg (by simp [hok])
      rw [(control_of_run hrun).pending hstep rfl, he]
      rfl

/-- **A transaction that has written its response** has read what the parser takes for one, and
written the bytes it has read. -/
theorem read_of_written (hrun : system.Run h m) (hwritten : ResponseWritten h) :
    ResponseRead (remoteReads h) ∧ responseWrites h = [(remoteReads h).flatten] := by
  cases hrun with
  | start _ => exact absurd hwritten (by simp [ResponseWritten])
  | @move h s _ l hrun hstep =>
    -- The response has not been written before, or nothing could have been pending.
    have hbefore : ¬ ResponseWritten h := fun hbefore ↦
      absurd hstep.1 (by simp [pending_of_written hrun hbefore])
    obtain ⟨bytes, hop, hok⟩ := (responseWritten_append.1 hwritten).resolve_left hbefore
    obtain ⟨op, c⟩ := l
    obtain rfl : op = .sendResponse bytes := hop
    have hreads : remoteReads (h ++ [⟨s, ⟨.sendResponse bytes, c⟩, m⟩]) = remoteReads h :=
      readsOf_append_of_ne (by simp)
    obtain ⟨hbytes, hread⟩ := says_of_run hrun hstep.1
    refine ⟨?_, ?_⟩
    · rwa [hreads]
    · have hwrite : writeOf ⟨s, ⟨.sendResponse bytes, c⟩, m⟩ = some bytes := if_pos hok
      rw [responseWrites, List.filterMap_append, ← responseWrites,
        responseWrites_of_not_written hbefore, hreads, ← hbytes]
      simp [hwrite]

/-! ### Interim responses -/

/-- The head of an interim response. -/
def IsInterim (head : LegalHead) : Prop := 100 ≤ head.statusCode ∧ head.statusCode < 200

/-- A final response: its fields delimit its body, unless it has none whatever they say. -/
structure IsFinalResponse (m : Machine) (final : LegalHead) (body : QByteArray) : Prop where
  status : 200 ≤ final.statusCode
  noBody : HasNoBody m final → body = []
  delimited : ¬ HasNoBody m final → final.Delimits body

/-- What the remote sends: interim responses and a final one. -/
def responseStream (interims : List LegalHead) (final : LegalHead) (body : QByteArray) :
    QByteArray :=
  interims.flatMap LegalHead.render ++ (final.render ++ body)

/-- **A transaction ends with the final response**: what is stored is what the parser makes of that
response, and the client has been written everything up to its end. -/
def EndsWithFinal (interims : List LegalHead) (final : LegalHead) (body : QByteArray)
    (h : List (Move Machine Label)) (m : Machine) : Prop :=
  m.tx.response = messageIn .response (final.render ++ body) ∧
    responseStream interims final body <+: (responseWrites h).flatten

/-- The read that brings the byte at which the parser lets the final response end also brings all
the rest of it. -/
def BringsRest (final : LegalHead) (body : QByteArray) (reads : List QByteArray) : Prop :=
  ∀ upTo, upTo <+: reads → final.parsedLength body ≤ upTo.flatten.length →
    upTo.flatten.length = (final.render ++ body).length

/-- The status of what a stream begins with. -/
theorem statusCode_messageIn (head : LegalHead) (rest : QByteArray) :
    (messageIn .response (head.render ++ rest)).statusCode = head.statusCode := by
  rw [messageIn_eq]
  exact head.statusCode_scan rest

/-- **A final response alone** is read to its end exactly if its last read brings the rest of it. -/
theorem flatten_eq_iff_bringsRest {final : LegalHead} {body : QByteArray}
    (hbody : body = [] ∨ final.Delimits body) {taken reads : List QByteArray}
    (hresponse : ResponseRead taken) (htaken : taken <+: reads)
    (hreads : reads.flatten = final.render ++ body) :
    taken.flatten = final.render ++ body ↔ BringsRest final body reads := by
  obtain ⟨earlier, last, rfl, hnone, hvalid⟩ := hresponse
  have hpre : (earlier ++ [last]).flatten <+: final.render ++ body :=
    hreads ▸ htaken.flatten
  obtain ⟨first, hfirst, hlength, hend⟩ :=
    LegalHead.exists_taken_of_valid hbody hpre (outcomeOf_eq_valid_iff.1 hvalid)
  constructor
  · intro hall upTo hupTo hle
    have hwhole : upTo.flatten <+: final.render ++ body := hreads ▸ hupTo.flatten
    refine le_antisymm hwhole.length_le ?_
    rcases List.prefix_or_prefix_of_prefix hupTo htaken with hshort | hlong
    · rcases List.prefix_concat_iff.1 hshort with rfl | hearlier
      · exact (congrArg List.length hall).ge
      · -- the response would have ended before the last read
        have hshorter : first.length ≤ earlier.flatten.length :=
          (hlength.trans_le hle).trans hearlier.flatten.length_le
        have hbefore : earlier.flatten <+: (earlier ++ [last]).flatten :=
          (List.prefix_append _ _).flatten
        obtain ⟨more, hmore⟩ := List.prefix_of_prefix_length_le hfirst hbefore hshorter
        rw [← hmore, scanner.verdict_append_of_some hend] at hnone
        exact absurd hnone (Option.some_ne_none _)
    · rw [← hall]
      exact hlong.flatten.length_le
  · intro hrest
    refine hpre.eq_of_length (hrest _ htaken ?_)
    rw [← hlength]
    exact hfirst.length_le

/-- **When a transaction ends with the final response**: no interim response precedes it, and the
read with the end that the parser sees brings all of it. -/
theorem endsWithFinal_iff (hrun : system.Run h m) (hwritten : ResponseWritten h)
    {interims : List LegalHead} {final : LegalHead} {body : QByteArray}
    (hinterims : ∀ i ∈ interims, IsInterim i) (hfinal : IsFinalResponse m final body)
    {reads : List QByteArray} (hreads : remoteReads h <+: reads)
    (hstream : reads.flatten = responseStream interims final body) :
    EndsWithFinal interims final body h m ↔ interims = [] ∧ BringsRest final body reads := by
  obtain ⟨hread, hwrites⟩ := read_of_written hrun hwritten
  rw [EndsWithFinal, response_eq_of_run hrun, hwrites, List.flatten_singleton]
  cases interims with
  | nil =>
    have hbody : body = [] ∨ final.Delimits body :=
      (Classical.em (HasNoBody m final)).imp hfinal.noBody hfinal.delimited
    have hstream : reads.flatten = final.render ++ body := hstream
    rw [← flatten_eq_iff_bringsRest hbody hread hreads hstream]
    refine ⟨fun hends ↦ ⟨rfl, ?_⟩, fun ⟨_, hall⟩ ↦ ?_⟩
    · have hpre : (remoteReads h).flatten <+: final.render ++ body :=
        hstream ▸ hreads.flatten
      exact hpre.eq_of_length_le hends.2.length_le
    · rw [hall]
      exact ⟨rfl, List.prefix_refl _⟩
  | cons i interims =>
    refine iff_of_false (fun hends ↦ ?_) fun hnil ↦ List.cons_ne_nil _ _ hnil.1
    obtain ⟨hi, -⟩ := List.forall_mem_cons.1 hinterims
    -- the status stored is that of the first head, and no later one replaces it
    obtain ⟨earlier, last, -, -, hvalid⟩ := hread
    obtain ⟨more, hmore⟩ := hstream ▸ hreads.flatten
    have hsame : messageIn .response (remoteReads h).flatten =
        messageIn .response (responseStream (i :: interims) final body) := by
      rw [messageIn_eq, messageIn_eq, ← hmore,
        scanner.scan_append_of_some (outcomeOf_eq_valid_iff.1 hvalid)]
    have hstatus := congrArg HttpMessage.statusCode (hsame.symm.trans hends.1)
    rw [responseStream, List.flatMap_cons, List.append_assoc, statusCode_messageIn,
      statusCode_messageIn] at hstatus
    exact absurd hfinal.status (by have hlow := hi.2; omega)

theorem lengthLine_legal :
    (LegalLine.field (asciiBytes "Content-Length") (asciiBytes " 2")).Legal :=
  ⟨by decide, by decide, by decide⟩

/-- A response to a `GET`. -/
def okResponse : LegalHead :=
  { okHead with
    lines := [.field (asciiBytes "Content-Length") (asciiBytes " 2")]
    lines_legal := List.forall_mem_singleton.2 lengthLine_legal
    lines_head := by
      rintro l ⟨⟩
      trivial }

theorem okResponse_isFinalResponse (hmethod : m.tx.request.method ≠ QString.ofString "HEAD") :
    IsFinalResponse m okResponse (asciiBytes "hi") where
  status := by decide
  noBody hnoBody := by
    refine absurd hnoBody ?_
    rintro (hhead | hstatus | hstatus)
    · exact hmethod hhead
    · exact absurd hstatus (by decide)
    · exact absurd hstatus (by decide)
  delimited _ := .inr ⟨by decide, by decide, by
    have hvalues : okResponse.valuesOf (QString.ofString "Content-Length") =
        [QString.ofString " 2"] := by decide
    rw [hvalues]
    simp only [List.mem_singleton, forall_eq]
    exact ⟨by decide, by decide, by decide⟩⟩

/-- A final response in two reads, with no interim response before it. -/
theorem finalAlone_endsWithFinal :
    ∃ h m, system.Run h m ∧ (remoteReads h).length = 2 ∧
      EndsWithFinal [] okResponse (asciiBytes "hi") h m := by
  obtain ⟨h, m, hrun, hreads, hwritten, hstream, hmethod⟩ := exists_run_of_follow
    (requestLabels ++
      [readLabel (asciiBytes "HTTP/1.1 200 OK\r\nContent-Len"),
        readLabel (asciiBytes "gth: 2\r\n\r\nhi"),
        ⟨.sendResponse (okResponse.render ++ asciiBytes "hi"), { written := 40 }⟩])
    (fun h m ↦ (remoteReads h).length = 2 ∧
      responseWrites h = [okResponse.render ++ asciiBytes "hi"] ∧
      (remoteReads h).flatten = okResponse.render ++ asciiBytes "hi" ∧
      m.tx.request.method ≠ QString.ofString "HEAD")
    (by decide +kernel)
  have hwritten : ResponseWritten h := responseWritten_of_ne_nil (by simp [hwritten])
  have hlength : okResponse.parsedLength (asciiBytes "hi") =
      (okResponse.render ++ asciiBytes "hi").length := by decide +kernel
  have hwhole : (remoteReads h).flatten = responseStream [] okResponse (asciiBytes "hi") := hstream
  refine ⟨h, m, hrun, hreads, (endsWithFinal_iff hrun hwritten (by simp)
    (okResponse_isFinalResponse hmethod) (List.prefix_refl _) hwhole).2
      ⟨rfl, fun upTo hupTo hle ↦ ?_⟩⟩
  -- the parser sees the end where it is
  refine le_antisymm ?_ (hlength ▸ hle)
  exact hstream ▸ hupTo.flatten.length_le

/-- The head of an interim response. -/
def continueHead : LegalHead := bareHead "100" "Continue" (by decide)

/-- An interim response in the same read as the final one: all bytes are written, and the interim
response is the one stored. -/
theorem continue_not_endsWithFinal :
    ∃ h m, system.Run h m ∧ ResponseWritten h ∧
      IsInterim continueHead ∧ IsFinalResponse m okResponse (asciiBytes "hi") ∧
      remoteReads h = [responseStream [continueHead] okResponse (asciiBytes "hi")] ∧
      ¬ EndsWithFinal [continueHead] okResponse (asciiBytes "hi") h m := by
  obtain ⟨h, m, hrun, hwrites, hreads, hresponse, hmethod⟩ := exists_run_of_follow
    (requestLabels ++
      [readLabel (responseStream [continueHead] okResponse (asciiBytes "hi")),
        ⟨.sendResponse (responseStream [continueHead] okResponse (asciiBytes "hi")),
          { written := 65 }⟩])
    (fun h m ↦ responseWrites h ≠ [] ∧
      remoteReads h = [responseStream [continueHead] okResponse (asciiBytes "hi")] ∧
      m.tx.response.statusCode = 100 ∧ m.tx.request.method ≠ QString.ofString "HEAD")
    (by decide +kernel)
  refine ⟨h, m, hrun, responseWritten_of_ne_nil hwrites, ⟨by decide, by decide⟩, okResponse_isFinalResponse hmethod,
    hreads, ?_⟩
  rintro ⟨hfinal, -⟩
  rw [hfinal, statusCode_messageIn] at hresponse
  exact absurd hresponse (by decide)

end Transaction

end Amanuensis
