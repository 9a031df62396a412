import Amanuensis.Transaction.Failures

/-!
# The end of a transaction, for its observers

`on_transaction_complete` is emitted once, and `on_transaction_failed` at most once and before it,
in every run in which the two directions of a tunnel do not end in the same way
(`terminatesOnce_of_run`). A read that brings nothing releases the connections silently, so that it
is left to the other direction to end the transaction, which a read does not; a write that fails
ends the transaction, and the other direction ends it again if it writes too.

What may be pending after the connections have been released, with the signals emitted so far, is
`Ending`.
-/

namespace Amanuensis

/-- A write in a tunnel. -/
def Operation.isTunnelWrite : Operation → Bool
  | .tunnelWrite _ _ => true
  | _ => false

/-- An operation that reads. -/
def Operation.isRead : Operation → Bool
  | .readClientRequest | .readRemoteResponse | .tunnelRead _ => true
  | _ => false

/-- The signal of an event. -/
def Event.signal? : Event → Option Signal
  | .signal s _ _ => some s
  | _ => none

/-- A signal that ends the transaction for its observers. -/
def Signal.isEnd (s : Signal) : Bool := s = .transactionComplete ∨ s = .transactionFailed

/-- The signals emitted. -/
def Machine.signals (m : Machine) : List Signal := m.trace.filterMap Event.signal?

/-- The signals emitted that end the transaction. -/
def Machine.ends (m : Machine) : List Signal := m.signals.filter Signal.isEnd

namespace Transaction

open HttpMessageParser LabelledSystem

variable {m m' : Machine} {l : Label} {h : List (Move Machine Label)}

/-! ### What is claimed, and when -/

/-- **The transaction terminates its observers once.** -/
structure TerminatesOnce (m : Machine) : Prop where
  failed : m.signals.count .transactionFailed ≤ 1
  complete : m.signals.count .transactionComplete ≤ 1
  order : ¬ List.Sublist [.transactionComplete, .transactionFailed] m.signals
  done : m.pending = [] → m.signals.count .transactionComplete = 1

/-- What the connections are relied upon for: an operation that is pending when its connection is
closed completes with an error, and a read that fails reports no bytes. -/
def Reliable (t : Move Machine Label) : Prop :=
  (t.source.tx.client = none → t.label.completion.ec.isError = true) ∧
    (t.label.operation.isRead = true → t.label.completion.ec.isError = true →
      t.label.completion.data = [])

instance : DecidablePred Reliable := fun _ ↦ inferInstanceAs (Decidable (_ ∧ _))

/-- The other direction of the tunnel is not at the same kind of operation, when a read brings
nothing or a write fails. -/
def Undisturbed (t : Move Machine Label) : Prop :=
  t.source.tx.client ≠ none →
    (t.label.operation.isTunnelRead = true →
        (t.label.completion.ec.isError = true ∨ t.label.completion.data = []) →
        ∀ op ∈ t.source.pending.erase t.label.operation, op.isTunnelRead = false) ∧
      (t.label.operation.isTunnelWrite = true → (failure t.source t.label).isSome = true →
        ∀ op ∈ t.source.pending.erase t.label.operation, op.isTunnelWrite = false)

instance : DecidablePred Undisturbed := fun _ ↦ inferInstanceAs (Decidable (_ → _))

/-! ### The signals of an effect -/

theorem filter_signals (events : List Event) :
    (events.filterMap Event.signal?).filter Signal.isEnd =
      (events.filter Event.isTerminal).filterMap Event.signal? := by
  induction events with
  | nil => rfl
  | cons e events ih =>
    cases e with
    | signal s state error =>
      have hsame : Event.isTerminal (.signal s state error) = s.isEnd := rfl
      cases hs : s.isEnd <;> simp [Event.signal?, hsame, hs, ih]
    | _ => exact ih

/-- A step emits the ends of its effect. -/
theorem ends_of_step {e : Effect} (hm : Control m) (hstep : system.step m l m')
    (he : effectOf m l = e) : m'.ends = m.ends ++ (e.ends m.tx).filterMap Event.signal? := by
  obtain ⟨new, -, htrace, -, hends, -⟩ := hm.exists_new hstep he
  rw [Machine.ends, Machine.signals, htrace, List.filterMap_append, List.filter_append,
    filter_signals new, hends]
  rfl

/-! ### The invariant -/

/-- **How a transaction ends.** -/
inductive Ending (m : Machine) : Prop
  | opened (hclient : m.tx.client ≠ none) (hends : m.ends = [])
  /-- A failure; the other direction may be at a read. -/
  | failed (hclient : m.tx.client = none)
      (hends : m.ends = [.transactionFailed, .transactionComplete])
      (hpending : ∀ op ∈ m.pending, op.isTunnelRead = true)
  /-- The response has been relayed. -/
  | finished (hclient : m.tx.client = none) (hends : m.ends = [.transactionComplete])
      (hpending : m.pending = [])
  /-- A direction has ended; the other one is at a write, whose failure is still to come. -/
  | released (hclient : m.tx.client = none) (hends : m.ends = [])
      (hpending : ∃ op, m.pending = [op] ∧ op.isTunnelWrite = true)

theorem Ending.terminatesOnce (h : Ending m) (hm : Control m) : TerminatesOnce m := by
  have hcount {s : Signal} (hs : s.isEnd = true) : m.signals.count s = m.ends.count s :=
    (List.count_filter hs).symm
  have horder (hsub : List.Sublist [.transactionComplete, .transactionFailed] m.signals) :
      List.Sublist [.transactionComplete, .transactionFailed] m.ends := by
    have hfilter := hsub.filter Signal.isEnd
    exact hfilter
  have hfailed := hcount (s := .transactionFailed) rfl
  have hcomplete := hcount (s := .transactionComplete) rfl
  rcases h with ⟨hclient, hends⟩ | ⟨-, hends, -⟩ | ⟨-, hends, -⟩ | ⟨-, hends, ⟨op, hpending, -⟩⟩
  · rw [hends] at hfailed hcomplete horder
    exact ⟨by rw [hfailed]; decide, by rw [hcomplete]; decide,
      fun hsub ↦ by simpa using horder hsub,
      fun hp ↦ absurd (hm.stage.client_of_pending_nil hp) hclient⟩
  · rw [hends] at hfailed hcomplete horder
    exact ⟨by rw [hfailed]; decide, by rw [hcomplete]; decide,
      fun hsub ↦ absurd (horder hsub) (by decide), fun _ ↦ by rw [hcomplete]; decide⟩
  · rw [hends] at hfailed hcomplete horder
    exact ⟨by rw [hfailed]; decide, by rw [hcomplete]; decide,
      fun hsub ↦ absurd (horder hsub) (by decide), fun _ ↦ by rw [hcomplete]; decide⟩
  · rw [hends] at hfailed hcomplete horder
    exact ⟨by rw [hfailed]; decide, by rw [hcomplete]; decide,
      fun hsub ↦ by simpa using horder hsub,
      fun hp ↦ absurd (hpending.symm.trans hp) (List.cons_ne_nil _ _)⟩

theorem effectOf_of_isTunnelRead (hread : l.operation.isTunnelRead = true)
    (hdata : l.completion.data = []) : effectOf m l = .release := by
  obtain ⟨op, c⟩ := l
  cases op with
  | tunnelRead d => exact if_pos (Or.inr (congrArg List.length hdata))
  | _ => exact absurd hread Bool.false_ne_true

theorem effectOf_of_isTunnelWrite (hwrite : l.operation.isTunnelWrite = true)
    (herr : l.completion.ec.isError = true) : effectOf m l = .fail l.completion.ec := by
  obtain ⟨op, c⟩ := l
  cases op with
  | tunnelWrite d bytes => exact if_pos herr
  | _ => exact absurd hwrite Bool.false_ne_true

theorem isRead_of_isTunnelRead {op : Operation} (hr : op.isTunnelRead = true) :
    op.isRead = true := by
  cases op <;> first | rfl | exact absurd hr Bool.false_ne_true

theorem isTunnelRead_or_isTunnelWrite {op : Operation} (hd : op.direction ≠ none) :
    op.isTunnelRead = true ∨ op.isTunnelWrite = true := by
  cases op <;> first | exact Or.inl rfl | exact Or.inr rfl | exact absurd rfl hd

/-- While the tunnel is open, the other direction has one operation pending. -/
theorem exists_other (hm : Control m) (hl : l.operation ∈ m.pending)
    (hd : l.operation.direction ≠ none) (hclient : m.tx.client ≠ none) :
    ∃ o, m.pending.erase l.operation = [o] ∧ o.direction ≠ none := by
  obtain ⟨d, hd⟩ := Option.ne_none_iff_exists'.1 hd
  rcases hm.stage.handling hl hd with ⟨o, hp, ho, -, -, -⟩ | ⟨-, hc, -⟩
  · exact ⟨o, hp, by rw [ho]; exact Option.some_ne_none _⟩
  · exact absurd hc hclient

/-- A failure in an open tunnel is that of a write, when reads that fail report no bytes. -/
theorem isTunnelWrite_of_fail {ec : ErrorCode} (hd : l.operation.direction ≠ none)
    (he : effectOf m l = .fail ec)
    (hread : l.operation.isTunnelRead = true → l.completion.ec.isError = true →
      l.completion.data = []) :
    l.operation.isTunnelWrite = true ∧ (failure m l).isSome = true := by
  rcases failure_of_fail he with hf | ⟨success, bytes, hop, -⟩
  · refine ⟨(isTunnelRead_or_isTunnelWrite hd).resolve_left fun hr ↦ ?_, by rw [hf]; rfl⟩
    -- A read that fails would have ended the stream.
    have herr : l.completion.ec.isError = true := by
      obtain ⟨op, c⟩ := l
      cases op with
      | tunnelRead d => grind [failure]
      | _ => exact absurd hr Bool.false_ne_true
    exact absurd (he.symm.trans (effectOf_of_isTunnelRead hr (hread hr herr))) (by simp)
  · exact absurd (by rw [hop]; rfl) hd

/-- **One step of the end.** -/
theorem Ending.step (hm : Control m) (hending : Ending m) (hstep : system.step m l m')
    (hreliable : Reliable ⟨m, l, m'⟩) (hundisturbed : Undisturbed ⟨m, l, m'⟩) : Ending m' := by
  have hpending {ops : List Operation} (hp : m'.pending = (m.without l.operation).pending ++ ops) :
      m'.pending = m.pending.erase l.operation ++ ops := hp
  rcases hending with ⟨hclient, hends⟩ | ⟨hclient, hends, hread⟩ | ⟨-, -, hp⟩ |
    ⟨hclient, hends, ⟨op, hp, hwrite⟩⟩
  · obtain ⟨hquietRead, hquietWrite⟩ := hundisturbed hclient
    cases he : effectOf m l with
    | proceed ops =>
      obtain ⟨notes, -, happlied⟩ := hm.applied hstep he
      have hclient' : m'.tx.client = m.tx.client := happlied.client
      have hends' := ends_of_step hm hstep he
      rw [hends] at hends'
      exact .opened (by rwa [hclient']) hends'
    | release =>
      obtain ⟨notes, -, happlied⟩ := hm.applied hstep he
      obtain ⟨d, hop, hend⟩ := effectOf_eq_release he
      have hends' := ends_of_step hm hstep he
      rw [hends] at hends'
      have hd : l.operation.direction ≠ none := by rw [hop]; exact Option.some_ne_none _
      obtain ⟨o, ho, hdirection⟩ := exists_other hm hstep.1 hd hclient
      have hnothing : l.completion.ec.isError = true ∨ l.completion.data = [] := by
        rcases hend with heof | hdata
        · exact Or.inl (by rw [heof]; rfl)
        · exact Or.inr (List.eq_nil_of_length_eq_zero hdata)
      have hnotRead : o.isTunnelRead = false :=
        hquietRead (by rw [hop]; rfl) hnothing o (by rw [ho]; exact List.mem_singleton_self o)
      refine .released happlied.client hends' ⟨o, ?_, ?_⟩
      · rw [hpending happlied.pending, ho]
        rfl
      · exact (isTunnelRead_or_isTunnelWrite hdirection).resolve_left (by simp [hnotRead])
    | finish =>
      obtain ⟨notes, -, happlied⟩ := hm.applied hstep he
      obtain ⟨bytes, hop, -⟩ := effectOf_eq_finish he
      have hends' := ends_of_step hm hstep he
      rw [hends] at hends'
      obtain ⟨hp, -, -⟩ := hm.stage.expected hstep.1 (by rw [hop]; rfl)
      refine .finished happlied.client hends' ?_
      rw [hpending happlied.pending, hp, List.erase_cons_head]
      rfl
    | fail ec =>
      obtain ⟨notes, -, happlied⟩ := hm.applied hstep he
      have hends' := ends_of_step hm hstep he
      rw [hends] at hends'
      refine .failed happlied.client hends' fun o ho ↦ ?_
      rw [hpending happlied.pending, show (Effect.fail ec).operations = [] from rfl,
        List.append_nil] at ho
      by_cases hd : l.operation.direction = none
      · obtain ⟨hp, -, -⟩ := hm.stage.expected hstep.1 hd
        rw [hp, List.erase_cons_head] at ho
        exact absurd ho List.not_mem_nil
      · have hfails := isTunnelWrite_of_fail hd he fun hr ↦
          hreliable.2 (isRead_of_isTunnelRead hr)
        obtain ⟨o', ho', hdirection⟩ := exists_other hm hstep.1 hd hclient
        have hnotWrite := hquietWrite hfails.1 hfails.2 o ho
        rw [ho', List.mem_singleton] at ho
        rw [← ho] at hdirection
        exact (isTunnelRead_or_isTunnelWrite hdirection).resolve_right (by simp [hnotWrite])
  · -- The read of the other direction is aborted, and releases once more.
    have hr := hread _ hstep.1
    have hdata := hreliable.2 (isRead_of_isTunnelRead hr) (hreliable.1 hclient)
    have he := effectOf_of_isTunnelRead (m := m) hr hdata
    obtain ⟨notes, -, happlied⟩ := hm.applied hstep he
    have hends' := ends_of_step hm hstep he
    rw [hends] at hends'
    refine .failed happlied.client hends' fun o ho ↦ hread o ?_
    rw [hpending happlied.pending, show Effect.release.operations = [] from rfl,
      List.append_nil] at ho
    exact List.mem_of_mem_erase ho
  · exact absurd (hp ▸ hstep.1) List.not_mem_nil
  · -- The write of the other direction is aborted, and fails.
    have hop : l.operation = op := List.mem_singleton.1 (hp ▸ hstep.1)
    have he := effectOf_of_isTunnelWrite (m := m) (by rw [hop]; exact hwrite) (hreliable.1 hclient)
    obtain ⟨notes, -, happlied⟩ := hm.applied hstep he
    have hends' := ends_of_step hm hstep he
    rw [hends] at hends'
    refine .failed happlied.client hends' fun o ho ↦ ?_
    rw [hpending happlied.pending, hp, hop, List.erase_cons_head] at ho
    exact absurd ho List.not_mem_nil

/-- **Every transaction ends once for its observers**, when its connections are reliable and the
directions of a tunnel do not end in the same way. -/
theorem terminatesOnce_of_run (hrun : system.Run h m) (hreliable : ∀ t ∈ h, Reliable t)
    (hundisturbed : ∀ t ∈ h, Undisturbed t) : TerminatesOnce m := by
  have hending : Ending m := by
    refine hrun.history_induction (P := fun t ↦ Reliable t ∧ Undisturbed t)
      (I := fun _ m ↦ Ending m) ?_ ?_ fun t ht ↦ ⟨hreliable t ht, hundisturbed t ht⟩
    · intro m hm
      obtain rfl := init_iff.1 hm
      exact .opened (by decide) rfl
    · intro h m l m' hrun ih hstep hP
      exact ih.step (control_of_run hrun) hstep hP.1 hP.2
  exact hending.terminatesOnce (control_of_run hrun)

/-- The client ends a tunnel while both directions read: nothing completes the transaction. -/
theorem tunnelEof_not_terminatesOnce :
    ∃ h m, system.Run h m ∧ (∀ t ∈ h, Reliable t) ∧ ¬ TerminatesOnce m := by
  obtain ⟨h, m, hrun, hreliable, hpending, hcount⟩ := exists_run_of_follow
    (connectLabels ++
      [⟨.connectReply {} true (connectReplyText true), { written := 50 }⟩,
        ⟨.tunnelRead .clientToRemote, { ec := .eof }⟩,
        ⟨.tunnelRead .remoteToClient, { ec := { value := 125 } }⟩])
    (fun h m ↦ (∀ t ∈ h, Reliable t) ∧ m.pending = [] ∧
      m.signals.count .transactionComplete ≠ 1) (by decide +kernel)
  exact ⟨h, m, hrun, hreliable, fun hends ↦ hcount (hends.done hpending)⟩

/-- The client ends a tunnel while the other direction writes: the write is aborted, and ends the
transaction. -/
theorem tunnelEof_terminatesOnce :
    ∃ h m, system.Run h m ∧ m.pending = [] ∧ TerminatesOnce m := by
  obtain ⟨h, m, hrun, hreliable, hundisturbed, hpending⟩ := exists_run_of_follow
    (connectLabels ++
      [⟨.connectReply {} true (connectReplyText true), { written := 50 }⟩,
        ⟨.tunnelRead .remoteToClient, { data := asciiBytes "hello" }⟩,
        ⟨.tunnelRead .clientToRemote, { ec := .eof }⟩,
        ⟨.tunnelWrite .remoteToClient (asciiBytes "hello"), { ec := { value := 125 } }⟩])
    (fun h m ↦ (∀ t ∈ h, Reliable t) ∧ (∀ t ∈ h, Undisturbed t) ∧ m.pending = [])
    (by decide +kernel)
  exact ⟨h, m, hrun, hpending, terminatesOnce_of_run hrun hreliable hundisturbed⟩

end Transaction

end Amanuensis
