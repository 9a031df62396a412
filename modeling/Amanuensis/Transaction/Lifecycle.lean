import Amanuensis.Transaction.Exchange
import Amanuensis.Transaction.Failures
import Amanuensis.Transaction.Termination

/-!
# The signals of the lifecycle

`do_notification` emits what belongs to the states it leaves, so that a stage is announced when the
next one is reached: when it returns from `RequestComplete`, `on_request_read` has not been emitted.
`lifecycle_iff` says that the signals are late in every run that reads a request other than
`CONNECT` to its end, and only in those.
-/

namespace Amanuensis

namespace Transaction

open HttpMessageParser LabelledSystem

variable {m m' : Machine} {l : Label} {h : List (Move Machine Label)}

/-! ### What is claimed -/

/-- The signals among events. -/
def signalsOf (events : List Event) : List Signal := events.filterMap Event.signal?

/-- **Every lifecycle signal is emitted when its stage is reached.** -/
structure Lifecycle (m : Machine) : Prop where
  requestRead : ∀ before after, m.trace = before ++ .notified .requestComplete :: after →
    (signalsOf before).count .requestRead = 1 ∧ ∀ host port, .tryOpen host port ∉ before
  responseHeadersRead : ∀ before after,
    m.trace = before ++ .phaseNotified .response .receivedHeaders :: after →
      (signalsOf before).count .responseHeadersRead = 1
  responseRead : ∀ before after, m.trace = before ++ .notified .responseComplete :: after →
    (signalsOf before).count .responseRead = 1
  sequence : .transactionComplete ∈ m.signals → .transactionFailed ∉ m.signals →
    m.signals = [.transactionStart, .requestRead, .responseHeadersRead, .responseRead,
      .transactionComplete]

/-- What has been read from the client is a request other than `CONNECT`. -/
def PlainRequestRead (h : List (Move Machine Label)) : Prop :=
  ∃ c rest, parse (Cursor.start .request {}).forget (clientReads h).flatten = (.valid, c, rest) ∧
    c.message.method ≠ QString.ofString "CONNECT"

theorem plainRequestRead_iff :
    PlainRequestRead h ↔
      outcomeOf (scanner.scan (.start .request {}) (clientReads h).flatten).verdict = .valid ∧
        (scanner.scan (.start .request {}) (clientReads h).flatten).state.message.method ≠
          QString.ofString "CONNECT" := by
  rw [PlainRequestRead, parse_eq_scan rfl, scan_forget]
  constructor
  · rintro ⟨c, rest, heq, hmethod⟩
    obtain ⟨hvalid, rfl, -⟩ : _ = Outcome.valid ∧ _ = c ∧ _ = rest := by
      simpa only [Prod.mk.injEq] using heq
    exact ⟨hvalid, hmethod⟩
  · rintro ⟨hvalid, hmethod⟩
    exact ⟨_, _, Prod.ext hvalid rfl, hmethod⟩

/-! ### The invariant -/

/-- An operation on the way to a response. -/
def isPlain : Operation → Bool
  | .resolve .request | .connect .request | .sendRequest _ | .readRemoteResponse
  | .sendResponse _ => true
  | _ => false

/-- Recorded before the end of a request. -/
def isPreliminary (e : Event) : Prop :=
  e.isEarly = true ∨ e = .signal .transactionStart .none {}

/-- Nothing has been recorded yet but the beginning. -/
structure Preliminary (m : Machine) : Prop where
  notes : ∀ e ∈ m.trace.filter Event.isNote, isPreliminary e
  pending : ∀ op ∈ m.pending, isPlain op = false
  ends : .transactionComplete ∈ m.ends → .transactionFailed ∈ m.ends

/-- The end of the request has been notified, and no signal about it emitted before. -/
def Late (m : Machine) : Prop :=
  ∃ before after, m.trace = before ++ .notified .requestComplete :: after ∧
    .requestRead ∉ signalsOf before

theorem requestRead_not_mem_of_preliminary {events : List Event}
    (hnotes : ∀ e ∈ events.filter Event.isNote, isPreliminary e) :
    .requestRead ∉ signalsOf events := by
  intro hmem
  obtain ⟨e, he, hsignal⟩ := List.mem_filterMap.1 hmem
  cases e with
  | signal s state error =>
    obtain rfl : s = .requestRead := Option.some_inj.1 hsignal
    have hnote := hnotes _ (List.mem_filter.2 ⟨he, rfl⟩)
    rcases hnote with hearly | hstart
    · exact absurd hearly Bool.false_ne_true
    · exact absurd hstart (by simp)
  | _ => exact absurd hsignal (by simp [Event.signal?])

/-- A late notification stays late. -/
theorem Late.mono (h : Late m) (hpre : m.trace <+: m'.trace) : Late m' := by
  obtain ⟨before, after, htrace, hlate⟩ := h
  obtain ⟨new, hnew⟩ := hpre
  exact ⟨before, after ++ new, by rw [← hnew, htrace]; simp, hlate⟩

theorem trace_prefix_of_step (hm : Control m) (hstep : system.step m l m') :
    m.trace <+: m'.trace := by
  obtain ⟨new, -, htrace, -⟩ := hm.exists_new hstep rfl
  exact ⟨new, htrace.symm⟩

/-- The notes of a step are added to those before it. -/
theorem exists_notes_of_step (hm : Control m) (hstep : system.step m l m') :
    ∃ notes, IsNoted m l notes ∧
      m'.trace.filter Event.isNote = m.trace.filter Event.isNote ++ notes := by
  obtain ⟨new, notes, htrace, hnoted, -, hnotes⟩ := hm.exists_new hstep rfl
  exact ⟨notes, hnoted, by rw [htrace, List.filter_append, hnotes]⟩

/-! ### The end of the request -/

/-- While the request is being read, it has not ended. -/
theorem not_plainRequestRead_of_reading (hrun : system.Run h m)
    (hop : .readClientRequest ∈ m.pending) : ¬ PlainRequestRead h := by
  obtain ⟨hscan, -⟩ := says_of_run hrun hop
  rw [plainRequestRead_iff, hscan]
  exact fun hplain ↦ absurd hplain.1 (by simp [outcomeOf])

/-- **The request ends in the step that reads its last bytes.** -/
theorem plainRequestRead_append (hrun : system.Run h m) (hop : l.operation ∈ m.pending) :
    PlainRequestRead (h ++ [⟨m, l, m'⟩]) ↔ PlainRequestRead h ∨ endsPlainRequest m l := by
  by_cases hread : l.operation = .readClientRequest
  · rw [hread] at hop
    obtain ⟨hscan, -⟩ := says_of_run hrun hop
    have hnot := not_plainRequestRead_of_reading hrun hop
    rw [or_iff_right hnot]
    cases hok : l.completion.ec.isError with
    | false =>
      have hreads : clientReads (h ++ [⟨m, l, m'⟩]) = clientReads h ++ [l.completion.data] := by
        have hreads := readsOf_append_of_read (h := h) (t := ⟨m, l, m'⟩) hok
        rwa [hread] at hreads
      rw [plainRequestRead_iff, hreads, scan_flatten_append hscan]
      exact ⟨fun hplain ↦ ⟨hread, hok, hplain⟩, fun hends ↦ hends.2.2⟩
    | true =>
      have hreads : clientReads (h ++ [⟨m, l, m'⟩]) = clientReads h := by
        rw [clientReads, readsOf_append, readOf, if_neg (by simp [hok])]
        exact List.append_nil _
      rw [plainRequestRead_iff, hreads, ← plainRequestRead_iff]
      exact iff_of_false hnot fun hends ↦ absurd (hends.2.1.symm.trans hok) (by decide)
  · have hreads : clientReads (h ++ [⟨m, l, m'⟩]) = clientReads h := readsOf_append_of_ne hread
    have hends : ¬ endsPlainRequest m l := fun hends ↦ hread hends.1
    rw [or_iff_left hends, plainRequestRead_iff, hreads, ← plainRequestRead_iff]

/-! ### The lifecycle of a run -/

theorem isPlain_of_mem_operations {op : Operation} (hop : op ∈ (effectOf m l).operations)
    (hl : isPlain l.operation = false) (hends : ¬ endsPlainRequest m l) : isPlain op = false := by
  obtain ⟨o, c⟩ := l
  cases o with
  | readClientRequest => grind [effectOf, Effect.operations, endsPlainRequest, isPlain]
  | resolve callback | connect callback =>
    cases callback <;> grind [effectOf, Effect.operations, isPlain]
  | _ => grind [effectOf, Effect.operations, isPlain]

/-- **Before the end of the request** nothing but the beginning is recorded. -/
theorem Preliminary.step (hpre : Preliminary m) (hm : Control m) (hstep : system.step m l m')
    (hends : ¬ endsPlainRequest m l) : Preliminary m' := by
  have hl := hpre.pending l.operation hstep.1
  obtain ⟨notes, -, happlied⟩ := hm.applied hstep rfl
  refine ⟨fun e he ↦ ?_, fun op hop ↦ ?_, ?_⟩
  · obtain ⟨notes, hnoted, hnotes⟩ := exists_notes_of_step hm hstep
    rw [hnotes] at he
    rcases List.mem_append.1 he with he | he
    · exact hpre.notes e he
    · obtain ⟨op, c⟩ := l
      cases op with
      | readClientRequest =>
        obtain ⟨early, hearly, -, hnot⟩ := hnoted
        rw [hnot hends] at he
        exact Or.inl (hearly e he)
      | readRemoteResponse => exact absurd hl Bool.noConfusion
      | _ =>
        obtain rfl : notes = [] := hnoted
        exact absurd he List.not_mem_nil
  · rw [happlied.pending] at hop
    rcases List.mem_append.1 hop with hop | hop
    · exact hpre.pending op (List.mem_of_mem_erase hop)
    · exact isPlain_of_mem_operations hop hl hends
  · have hadded := ends_of_step hm hstep rfl
    rw [hadded]
    cases he : effectOf m l with
    | proceed | release => simpa [Effect.ends] using hpre.ends
    | fail ec => simp [Effect.ends, Event.signal?]
    | finish =>
      obtain ⟨bytes, hop, -⟩ := effectOf_eq_finish he
      rw [hop] at hl
      exact absurd hl Bool.noConfusion

/-- **At the end of the request** its notification returns too early. -/
theorem Preliminary.late (hpre : Preliminary m) (hm : Control m) (hstep : system.step m l m')
    (hends : endsPlainRequest m l) : Late m' := by
  obtain ⟨notes, hnoted, hnotes⟩ := exists_notes_of_step hm hstep
  rw [IsNoted, hends.1] at hnoted
  obtain ⟨early, hearly, hlast, -⟩ := hnoted
  rw [hlast hends, ← List.append_assoc] at hnotes
  obtain ⟨before, rest, htrace, hbefore, hrest⟩ := List.filter_eq_append_iff.1 hnotes
  obtain ⟨gap, after, rfl, hgap, -, -⟩ := List.filter_eq_cons_iff.1 hrest
  refine ⟨before ++ gap, after, by rw [htrace]; simp,
    requestRead_not_mem_of_preliminary fun e he ↦ ?_⟩
  have hgapNotes : gap.filter Event.isNote = [] := List.filter_eq_nil_iff.2 hgap
  rw [List.filter_append, hbefore, hgapNotes, List.append_nil] at he
  rcases List.mem_append.1 he with he | he
  · exact hpre.notes e he
  · exact Or.inl (hearly e he)

theorem preliminary_begun : Preliminary begun where
  notes e he := Or.inr (by simpa [begun, Event.isNote] using he)
  pending op hop := by
    obtain rfl : op = .readClientRequest := by simpa [begun] using hop
    rfl
  ends := by simp [Machine.ends, Machine.signals, begun, Event.signal?, Signal.isEnd]

/-- **In every run** either the request has not ended and nothing but the beginning is recorded, or
its notification was too early. -/
theorem preliminary_or_late_of_run (hrun : system.Run h m) :
    (¬ PlainRequestRead h ∧ Preliminary m) ∨ (PlainRequestRead h ∧ Late m) := by
  induction hrun with
  | start hm =>
    obtain rfl := init_iff.1 hm
    refine Or.inl ⟨?_, preliminary_begun⟩
    exact not_plainRequestRead_of_reading (.start hm) (List.mem_singleton_self _)
  | @move h m m' l hrun hstep ih =>
    have hm := control_of_run hrun
    rw [plainRequestRead_append hrun hstep.1]
    rcases ih with ⟨hnot, hpre⟩ | ⟨hplain, hlate⟩
    · by_cases hends : endsPlainRequest m l
      · exact Or.inr ⟨Or.inr hends, hpre.late hm hstep hends⟩
      · exact Or.inl ⟨not_or.2 ⟨hnot, hends⟩, hpre.step hm hstep hends⟩
    · exact Or.inr ⟨Or.inl hplain, hlate.mono (trace_prefix_of_step hm hstep)⟩

theorem Late.not_lifecycle (hlate : Late m) : ¬ Lifecycle m := by
  obtain ⟨before, after, htrace, hnot⟩ := hlate
  intro hlifecycle
  have hcount := (hlifecycle.requestRead before after htrace).1
  rw [List.count_eq_zero_of_not_mem hnot] at hcount
  exact absurd hcount (by decide)

/-- A note that is not preliminary has not been recorded. -/
theorem Preliminary.absurd_of_trace {before after : List Event} {e : Event} {P : Prop}
    (hpre : Preliminary m) (htrace : m.trace = before ++ e :: after) (he : e.isNote = true)
    (hnot : ¬ isPreliminary e) : P := by
  refine absurd (hpre.notes e (List.mem_filter.2 ⟨?_, he⟩)) hnot
  rw [htrace]
  exact List.mem_append_right _ List.mem_cons_self

theorem Preliminary.lifecycle (hpre : Preliminary m) : Lifecycle m where
  requestRead _ _ htrace :=
    hpre.absurd_of_trace htrace rfl (by simp [isPreliminary, Event.isEarly, NotificationState.code])
  responseHeadersRead _ _ htrace :=
    hpre.absurd_of_trace htrace rfl (by simp [isPreliminary, Event.isEarly])
  responseRead _ _ htrace :=
    hpre.absurd_of_trace htrace rfl (by simp [isPreliminary, Event.isEarly, NotificationState.code])
  sequence hcomplete hfailed := by
    have hends := hpre.ends (List.mem_filter.2 ⟨hcomplete, rfl⟩)
    exact absurd (List.mem_filter.1 hends).1 hfailed

/-- **When the lifecycle signals are on time**: exactly in the runs that do not read a request other
than `CONNECT` to its end. -/
theorem lifecycle_iff (hrun : system.Run h m) : Lifecycle m ↔ ¬ PlainRequestRead h := by
  rcases preliminary_or_late_of_run hrun with ⟨hnot, hpre⟩ | ⟨hplain, hlate⟩
  · exact iff_of_true hpre.lifecycle hnot
  · exact iff_of_false hlate.not_lifecycle (not_not.2 hplain)

/-- The client disconnects before its request has ended. -/
theorem clientDisconnected_lifecycle :
    ∃ h m, system.Run h m ∧ m.pending = [] ∧ Lifecycle m := by
  obtain ⟨h, m, hrun, hpending, hreads⟩ := exists_run_of_follow
    [⟨.readClientRequest, { data := asciiBytes "GET / HTTP/1.1\r\n" }⟩,
      ⟨.readClientRequest, { ec := .eof }⟩]
    (fun h m ↦ m.pending = [] ∧
      outcomeOf (scanner.scan (.start .request {}) (clientReads h).flatten).verdict ≠ .valid)
    (by decide +kernel)
  exact ⟨h, m, hrun, hpending, (lifecycle_iff hrun).2 fun hplain ↦
    hreads (plainRequestRead_iff.1 hplain).1⟩

/-- A request and a response with a body: the signals of a run that completes. -/
theorem requestRelayed_not_lifecycle :
    ∃ h m, system.Run h m ∧
      m.signals = [.transactionStart, .requestRead, .responseHeadersRead, .transactionComplete] ∧
      ¬ Lifecycle m := by
  obtain ⟨h, m, hrun, hsignals⟩ := exists_run_of_follow
    (requestLabels ++
      [⟨.readRemoteResponse,
          { data := asciiBytes "HTTP/1.1 200 OK\r\nContent-Length: 2\r\n\r\nhi" }⟩,
        ⟨.sendResponse (asciiBytes "HTTP/1.1 200 OK\r\nContent-Length: 2\r\n\r\nhi"),
          { written := 40 }⟩])
    (fun _ m ↦ m.signals =
      [.transactionStart, .requestRead, .responseHeadersRead, .transactionComplete])
    (by decide +kernel)
  refine ⟨h, m, hrun, hsignals, fun hlifecycle ↦ ?_⟩
  have hsequence := hlifecycle.sequence (by simp [hsignals]) (by simp [hsignals])
  exact absurd (hsignals.symm.trans hsequence) (by decide)

end Transaction

end Amanuensis
