import Amanuensis.App.MissedStates
import Amanuensis.Http.Phases
import Amanuensis.Transaction.Outgoing
import Amanuensis.Transaction.Tunnel

/-!
# The cells of a row

The view asks `TransactionModel::data` for the method, the status and the URL of a row, which are
read from the messages of the transaction. The bytes that a transaction reads tell its cells,
however they are cut into reads (`cells_of_run`).

Worker threads write to the messages while slots may run, but the cells are settled before the first
slot does: they change only while the head of the response has not been read (`unread_of_cells_ne`),
and until then a transaction emits nothing that the list listens to (`Unread.of_step`).
-/

open LabelledSystem

namespace Amanuensis

namespace TransactionModel

/-- `columnCount`: method, status and URL. -/
def columnCount : ℕ := 3

/-- `data`, for a valid index and the display role. -/
def data (tx : Transaction) (column : ℕ) : Option QString :=
  match column with
  | 0 => some tx.request.method
  | 1 =>
    -- a number has no place marker in it, so that the message takes the place of the second one
    some (QString.number tx.response.statusCode ++ QString.ofString " " ++
      tx.response.statusMessage)
  | 2 => some tx.request.uri
  | _ => none

/-- The cells of the row of a transaction. -/
def cells (tx : Transaction) : List (Option QString) := (List.range columnCount).map (data tx)

end TransactionModel

open TransactionModel (cells)

/-! ### The messages of a transaction -/

namespace Transaction

open HttpMessageParser

variable {m m' : Machine} {l : Label} {h : List (Move Machine Label)} {op : Operation}

/-- The cells that the bytes of a client and of a remote say. -/
def cellsOf (client remote : QByteArray) : List (Option QString) :=
  cells { request := messageIn .request client, response := messageIn .response remote }

/-- **The cells of a transaction** depend on the bytes it has read, and not on the reads. -/
theorem cells_of_run (hrun : system.Run h m) :
    cells m.tx = cellsOf (clientReads h).flatten (remoteReads h).flatten := by
  rw [cellsOf, ← request_eq_of_run hrun, ← response_eq_of_run hrun]
  rfl

/-- In a tunnel, the request is a `CONNECT`. -/
theorem method_of_direction (hrun : system.Run h m) (hop : op ∈ m.pending)
    (hd : op.direction ≠ none) : m.tx.request.method = QString.ofString "CONNECT" := by
  induction hrun generalizing op with
  | start hm =>
    obtain rfl := init_iff.1 hm
    obtain rfl : op = .readClientRequest := by simpa [begun] using hop
    exact absurd rfl hd
  | @move h m m' l hrun hstep ih =>
    have hm := control_of_run hrun
    have hknown := known_of_run hrun hstep.1
    have hsource : l.operation ≠ .readClientRequest ∧
        m.tx.request.method = QString.ofString "CONNECT" := by
      by_cases hlast : l.operation.direction = none
      · -- a tunnel begins when the reply to a `CONNECT` has been written
        rw [hm.pending hstep hlast] at hop
        obtain ⟨o, c⟩ := l
        cases o with
        | connectReply ec success bytes => exact ⟨by simp, hknown.2.1⟩
        | tunnelRead d | tunnelWrite d => exact absurd hlast (Option.some_ne_none d)
        | _ =>
          refine absurd ?_ hd
          grind [effectOf, Effect.operations, Operation.direction]
      · exact ⟨fun hread ↦ hlast (hread ▸ rfl), ih hstep.1 hlast⟩
    rw [request_of_step hm hstep hsource.1]
    exact hsource.2

/-- Cells change only by reads of a message. -/
theorem operation_of_cells_ne (hm : Control m) (hstep : system.step m l m')
    (hne : cells m'.tx ≠ cells m.tx) :
    l.operation = .readClientRequest ∨ l.operation = .readRemoteResponse := by
  by_contra hread
  obtain ⟨hrequest, hresponse⟩ := not_or.1 hread
  refine hne (List.map_congr_left fun column _ ↦ ?_)
  simp only [TransactionModel.data, request_of_step hm hstep hrequest,
    response_of_step hm hstep hresponse]

/-- **Cells change** only when the last state has not been reached. -/
theorem reading_of_cells_ne (hm : Control m) (hstep : system.step m l m')
    (hne : cells m'.tx ≠ cells m.tx) :
    m.tx.client ≠ none ∧ ¬ IsFinal m.tx.notificationState := by
  have hread := operation_of_cells_ne hm hstep hne
  have hd : l.operation.direction = none := by
    obtain hop | hop := hread <;> rw [hop] <;> rfl
  obtain ⟨hpending, hclient, -⟩ := hm.stage.expected hstep.1 hd
  refine ⟨by rw [hclient]; simp, fun hfinal ↦ ?_⟩
  have hcode : m.tx.notificationState.code ≤ 5 := by
    obtain ⟨o, c⟩ := l
    obtain rfl | rfl := hread
    all_goals rcases hm.stage with _ | _ | _ | _ | _ | _ | _ <;> grind
  obtain hfinal | hfinal := hfinal <;> rw [hfinal] at hcode <;> exact absurd hcode (by decide)

/-! ### Settled cells -/

end Transaction

namespace HttpMessageParser

/-- **What is reported before the head has been read** is the start line. -/
theorem eq_receivedMessageLine_of_mem_phaseChanges {c : Cursor} (hc : c.Phased)
    {bytes : QByteArray} (h : (scanner.scan c bytes).verdict = none)
    (hphase : (scanner.scan c bytes).state.phase ≠ some .receivedHeaders) :
    ∀ p ∈ phaseChanges c bytes, p = .receivedMessageLine := by
  intro p hp
  refine (Transaction.isReported_of_mem_phaseChanges hp).resolve_right ?_
  rintro rfl
  rw [phaseChanges, List.reduceOption_mem_iff] at hp
  induction bytes generalizing c with
  | nil => exact absurd hp List.not_mem_nil
  | cons input rest ih =>
    rcases hs : scanner.step c input with ⟨_ | o, c'⟩
    · rw [scanner.scan_cons_of_none hs] at h hphase
      have hc' : c'.Phased := by
        have hnext := phase_consume hc input
        rwa [consume_of_scanner_step_none hs] at hnext
      by_cases ho : c'.phase = c.phase
      · rw [scanner.changes_cons_of_eq _ hs ho] at hp
        exact ih hc' h hphase hp
      · rw [scanner.changes_cons_of_ne _ hs ho] at hp
        obtain heq | hp := List.mem_cons.1 hp
        · exact hphase (phase_scan_of_receivedHeaders hc' heq.symm h)
        · exact ih hc' h hphase hp
    · rw [scanner.changes_cons_of_some _ hs] at hp
      exact absurd hp List.not_mem_nil

end HttpMessageParser

namespace Transaction

open HttpMessageParser

variable {m m' : Machine} {l : Label} {h : List (Move Machine Label)}

/-- An event that is no signal. -/
def isSilent (e : Event) : Bool := e.signal?.isNone

theorem code_le_nine (s : NotificationState) : s.code ≤ 9 := by cases s <;> decide

/-- The start line of a response is reported in silence. -/
theorem advances_notifyPhaseChange_line (m : Machine) :
    Advances 9 isSilent m (notifyPhaseChange .response .receivedMessageLine m) := by
  refine advances_of_phase (code_le_nine _) (fun ns hns ↦ ?_) rfl
  rw [notificationOfPhase] at hns
  split_ifs at hns
  obtain rfl := Option.some_inj.1 hns
  exact advances_doNotification_of_le_four (by decide) (by decide) (code_le_nine _) rfl

/-- **The head of the response has not been read.** -/
def Unread (m : Machine) : Prop :=
  ∃ op ∈ m.pending,
    match op with
    | .readClientRequest | .resolve _ | .connect _ | .sendRequest _ => True
    | .readRemoteResponse => m.tx.responseParsePhase ≠ .receivedHeaders
    | _ => False

/-- Where the parser is while the response is read. -/
theorem phased_of_run (hrun : system.Run h m) (hop : .readRemoteResponse ∈ m.pending) :
    m.responseCursor.Phased := by
  have hscan := (says_of_run hrun hop).2
  have hnone : (scanner.scan (.start .response {}) (remoteReads h).flatten).verdict = none :=
    congrArg Scanner.Scan.verdict hscan
  have hphased := phase_scan hnone
  rwa [hscan] at hphased

/-- Reading a part of the head of the response is silent. -/
theorem exists_readResponse_eq_of_lines {data : QByteArray}
    (hlines : ∀ p ∈ phaseChanges m.responseCursor data, p = .receivedMessageLine) :
    ∃ s new,
      m.readResponse data =
        Machine.setResponseCursor (scanner.scan m.responseCursor data).state
          { m with
            trace := m.trace ++ new
            tx.readBuffer := data
            tx.rawInput := m.tx.rawInput ++ data
            tx.notificationState := s } ∧
      ∀ e ∈ new, isSilent e = true := by
  obtain ⟨s, new, hfold, -, -, hnew⟩ := advances_foldl
    (fun p m hp _ ↦ hp ▸ advances_notifyPhaseChange_line m) hlines
    (m := { m with tx.readBuffer := data, tx.rawInput := m.tx.rawInput ++ data }) (code_le_nine _)
  exact ⟨s, new, by rw [Machine.readResponse, hfold], hnew⟩

/-- A read of the response that leaves its head unread. -/
theorem silent_of_read {c : Completion} (hrun : system.Run h m)
    (hstep : system.step m ⟨.readRemoteResponse, c⟩ m') (hok : c.ec.isError = false)
    (hnone : (scanner.scan m.responseCursor c.data).verdict = none)
    (hphase : (scanner.scan m.responseCursor c.data).state.phase ≠ some .receivedHeaders) :
    ∃ new, m'.trace = m.trace ++ new ∧ ∀ e ∈ new, isSilent e = true := by
  have hm := control_of_run hrun
  have hlines := eq_receivedMessageLine_of_mem_phaseChanges (phased_of_run hrun hstep.1) hnone
    hphase
  obtain ⟨s, new, hread, hnew⟩ :=
    exists_readResponse_eq_of_lines (m := m.without .readRemoteResponse) hlines
  refine ⟨new, ?_, hnew⟩
  -- the handler goes on reading
  have hhandle : onReadRemoteResponse c (m.without .readRemoteResponse) = .ok m' := hstep.2
  have heof : c.ec ≠ .eof := by
    rintro heof
    rw [heof] at hok
    exact absurd hok (by decide)
  have hincomplete : outcomeOf (scanner.scan
      (m.without .readRemoteResponse).responseCursor c.data).verdict = .incomplete :=
    outcomeOf_eq_incomplete_iff.2 hnone
  obtain ⟨hclient, hremote⟩ :
      m.tx.client = some .client ∧ m.tx.remote = some .remote := by
    obtain ⟨hpending, hclient, -⟩ := hm.stage.expected hstep.1 rfl
    refine ⟨hclient, ?_⟩
    rcases hm.stage with _ | _ | _ | _ | _ | _ | _ <;> grind
  rw [onReadRemoteResponse_eq, if_neg heof, if_neg (by simp [hok]), hincomplete] at hhandle
  dsimp only at hhandle
  rw [readRemoteResponse_eq (by rw [hread]; exact hm.mutex) (by rw [hread]; exact hclient)
    (by rw [hread]; exact hremote)] at hhandle
  rw [← Except.ok.inj hhandle, hread]
  rfl

/-- **Until the head of the response has been read** nothing is emitted that the list listens to. -/
theorem Unread.of_step (hrun : system.Run h m) (hstep : system.step m l m')
    (hunread : Unread m') :
    Unread m ∧ ∀ signal, .emit signal ∉ actions m m' := by
  have hm := control_of_run hrun
  obtain ⟨op, hop, hkind⟩ := hunread
  have hd : op.direction = none := by cases op <;> first | rfl | exact hkind.elim
  have hlast : l.operation.direction = none := by
    by_contra hlast
    exact hm.direction hstep hlast hop hd
  rw [hm.pending hstep hlast] at hop
  have hsilent (hnew : ∃ new, m'.trace = m.trace ++ new ∧ ∀ e ∈ new, isSilent e = true)
      (signal : Signal) : .emit signal ∉ actions m m' := by
    intro hmem
    obtain ⟨new, htrace, hnew⟩ := hnew
    rw [actions, htrace, List.drop_left] at hmem
    obtain ⟨state, error, hevent⟩ := Window.exists_signal_of_emit hmem
    exact absurd (hnew _ hevent) (by simp [isSilent, Event.signal?])
  have hends : (effectOf m l).ends m.tx = [] := by
    cases he : effectOf m l with
    | proceed | release => rfl
    | finish | fail => exact absurd (he ▸ hop) List.not_mem_nil
  have hnotes (hnotes : ∀ notes, IsNoted m l notes → ∀ e ∈ notes, isSilent e = true) :
      ∃ new, m'.trace = m.trace ++ new ∧ ∀ e ∈ new, isSilent e = true := by
    obtain ⟨new, notes, htrace, hnoted, hterminal, rfl⟩ := hm.exists_new hstep rfl
    refine ⟨new, htrace, fun e he ↦ ?_⟩
    cases e with
    | signal s state error =>
      by_cases hs : Event.isTerminal (.signal s state error) = true
      · exact absurd (List.mem_filter.2 ⟨he, hs⟩) (by rw [hterminal, hends]; simp)
      · refine hnotes _ hnoted _ (List.mem_filter.2 ⟨he, ?_⟩)
        simpa [Event.isTerminal, Event.isNote] using hs
    | _ => rfl
  obtain ⟨o, c⟩ := l
  cases o with
  | readClientRequest =>
    refine ⟨⟨_, hstep.1, trivial⟩, hsilent (hnotes fun notes hnoted ↦ ?_)⟩
    obtain ⟨early, hearly, hends, hgoes⟩ := hnoted
    have hsilent : ∀ e ∈ early, isSilent e = true := fun e he ↦ by
      have he := hearly e he
      cases e with
      | signal => exact absurd he (by simp [Event.isEarly])
      | _ => rfl
    by_cases hplain : endsPlainRequest m ⟨.readClientRequest, c⟩
    · rw [hends hplain]
      exact List.forall_mem_append.2 ⟨hsilent, List.forall_mem_singleton.2 rfl⟩
    · rw [hgoes hplain]
      exact hsilent
  | resolve | connect | sendRequest =>
    refine ⟨⟨_, hstep.1, trivial⟩, hsilent (hnotes fun notes hnoted ↦ ?_)⟩
    obtain rfl : notes = [] := hnoted
    exact List.forall_mem_nil _
  | readRemoteResponse =>
    obtain ⟨hok, ⟨rfl, hnone⟩ | ⟨rfl, -⟩⟩ := operations_of_readRemoteResponse hop
    · have hphased := phased_of_run hrun hstep.1
      have hafter : m'.tx.responseParsePhase ≠ .receivedHeaders := hkind
      have hphase : (scanner.scan m.responseCursor c.data).state.phase ≠ some .receivedHeaders := by
        obtain ⟨notes, -, happlied⟩ := hm.applied hstep rfl
        have hsame : m'.tx.responseParsePhase =
            (contentOf m ⟨.readRemoteResponse, c⟩).responseParsePhase :=
          congrArg Content.responseParsePhase happlied.content
        rintro hphase
        rw [contentOf] at hsame
        dsimp only at hsame
        rw [if_neg (by simp [hok])] at hsame
        refine hafter (hsame.trans ?_)
        show (scanner.scan m.responseCursor c.data).state.phase.getD _ = _
        rw [hphase]
        rfl
      refine ⟨⟨_, hstep.1, fun hbefore ↦ hphase ?_⟩,
        hsilent (silent_of_read hrun hstep hok hnone hphase)⟩
      exact phase_scan_of_receivedHeaders hphased (congrArg some hbefore) hnone
    · exact hkind.elim
  | sendResponse => exact absurd hop (by grind [effectOf, Effect.operations])
  | connectReply =>
    refine absurd hd ?_
    grind [effectOf, Effect.operations, Operation.direction]
  | tunnelRead | tunnelWrite => exact absurd hlast (Option.some_ne_none _)

/-- **Cells change** only before the head of the response has been read. -/
theorem unread_of_cells_ne (hrun : system.Run h m) (hstep : system.step m l m')
    (hne : cells m'.tx ≠ cells m.tx) : Unread m := by
  have hm := control_of_run hrun
  obtain ⟨o, c⟩ := l
  obtain rfl | rfl := operation_of_cells_ne hm hstep hne
  · exact ⟨_, hstep.1, trivial⟩
  · refine ⟨_, hstep.1, fun hphase : m.tx.responseParsePhase = _ ↦ hne ?_⟩
    have hstate : m.responseCursor.parser.state.phase = .receivedHeaders := by
      have hphased : some m.tx.responseParsePhase = _ := phased_of_run hrun hstep.1
      exact (Option.some.inj hphased).symm.trans hphase
    have hstatus : m'.tx.response.statusCode = m.tx.response.statusCode ∧
        m'.tx.response.statusMessage = m.tx.response.statusMessage := by
      cases hok : c.ec.isError with
      | true =>
        rw [(content_of_error hm hstep hok).2]
        exact ⟨rfl, rfl⟩
      | false =>
        obtain ⟨notes, -, happlied⟩ := hm.applied hstep rfl
        have hresponse : m'.tx.response = (scanner.scan m.responseCursor c.data).state.message := by
          refine (congrArg Content.response happlied.content).trans ?_
          rw [contentOf, hok]
          rfl
        rw [hresponse]
        exact status_scan hstate c.data
    refine List.map_congr_left fun column _ ↦ ?_
    simp only [TransactionModel.data, request_of_step hm hstep (by simp), hstatus.1, hstatus.2]

end Transaction

end Amanuensis
