import Amanuensis.Transaction.Actions

/-!
# Progress is monotone

The notification state never falls, and stays at `Error` once it is there. Each stage of the
exchange is announced at most once and in its turn, and none after the transaction has failed. What
belongs to the response is never notified while a phase of the request is reported
(`monotone_of_run`).

That the signals come in turn is an invariant of the acts of the handlers (`Staged`): what has been
announced has been left behind by the notification state.
-/

namespace Amanuensis

/-- A signal that announces a stage of the exchange. -/
def Signal.isStage (s : Signal) : Bool :=
  s = .requestRead ∨ s = .responseHeadersRead ∨ s = .responseRead

/-- What belongs to the response. -/
def Event.isResponseSide : Event → Bool
  | notified ns => NotificationState.requestComplete.code < ns.code
  | phaseNotified mode _ => mode = .response
  | signal s _ _ => s = .responseHeadersRead ∨ s = .responseRead
  | _ => false

namespace Transaction

open HttpMessageParser LabelledSystem

/-! ### What is claimed -/

/-- What another thread sees of a run. -/
def runActions (h : List (Move Machine Label)) : List Action :=
  h.flatMap fun t ↦ actions t.source t.target

/-- **The progress of a transaction is monotone** in a run that leads to a state. -/
structure Monotone (h : List (Move Machine Label)) (m : Machine) : Prop where
  /-- The actions lead to the notification state, -/
  state : arrive .none (runActions h) = m.tx.notificationState
  /-- which never decreases, -/
  ascending : ∀ as bs, as ++ bs <+: runActions h →
    (arrive .none as).code ≤ (arrive .none (as ++ bs)).code
  /-- and is `Error` from the moment on at which it is. -/
  error : ∀ as bs, as ++ bs <+: runActions h → arrive .none as = .error →
    arrive .none (as ++ bs) = .error
  /-- The stages are announced at most once, and in this order, -/
  stages : (m.signals.filter Signal.isStage).Sublist
    [.requestRead, .responseHeadersRead, .responseRead]
  /-- and none of them after the failure. -/
  failed : m.signals.Pairwise fun s s' ↦ s = .transactionFailed → s'.isStage = false
  /-- No phase of the request is reported after anything that belongs to the response. -/
  requestSide : m.trace.Pairwise fun e e' ↦ e.isResponseSide = true →
    ∀ phase, e' ≠ .phaseNotified .request phase

variable {m m' m₁ : Machine} {l : Label} {op : Operation} {h : List (Move Machine Label)}

/-! ### Rising states -/

/-- No state is entered that is below the one before. -/
def Rises : NotificationState → List Action → Prop
  | _, [] => True
  | s, .enter state :: as => s.code ≤ state.code ∧ Rises state as
  | s, .emit _ :: as => Rises s as

theorem rises_append_iff {s : NotificationState} {as bs : List Action} :
    Rises s (as ++ bs) ↔ Rises s as ∧ Rises (arrive s as) bs := by
  induction as generalizing s with
  | nil => simp [Rises, arrive]
  | cons a as ih =>
    cases a with
    | enter state => simp [Rises, arrive, ih, and_assoc]
    | emit => exact ih

theorem Rises.code_le {s : NotificationState} {as : List Action} (h : Rises s as) :
    s.code ≤ (arrive s as).code := by
  induction as generalizing s with
  | nil => exact le_rfl
  | cons a as ih =>
    cases a with
    | enter state => exact h.1.trans (ih h.2)
    | emit => exact ih h

theorem rises_approach {s s' : NotificationState} (h : s.code ≤ s'.code) :
    Rises s (approach s s') := by
  cases s <;> cases s' <;> first
    | exact absurd h (by decide)
    | simp [approach, Rises, NotificationState.code, NotificationState.next, List.range_succ]

theorem Ascends.rises {s s' : NotificationState} {xs : List Event} (h : Ascends s xs s') :
    Rises s (actionsOf s xs) := by
  induction xs generalizing s with
  | nil => trivial
  | cons e xs ih =>
    have hemit : Rises (e.seen s) (e.signal?.toList.map .emit) := by cases e <;> trivial
    have harrive : arrive s (approach s (e.seen s) ++ e.signal?.toList.map .emit) = e.seen s := by
      rw [arrive_append, arrive_approach h.1, arrive_emit]
    rw [actionsOf, rises_append_iff, rises_append_iff, harrive, arrive_approach h.1]
    exact ⟨⟨rises_approach h.1, hemit⟩, ih h.2.2⟩

/-- The actions of a run rise to its state, past `TLSTunnel`. -/
theorem rises_of_run (hrun : system.Run h m) :
    Rises .none (runActions h) ∧ arrive .none (runActions h) = m.tx.notificationState ∧
      m.tx.notificationState ≠ .tlsTunnel := by
  induction hrun with
  | start hm =>
    obtain rfl := init_iff.1 hm
    exact ⟨trivial, rfl, by decide⟩
  | @move h m m' l hrun hstep ih =>
    obtain ⟨hrises, harrive, hne⟩ := ih
    have hascends := ascends_of_step hne hstep
    rw [runActions, List.flatMap_append, List.flatMap_singleton, rises_append_iff, arrive_append]
    refine ⟨⟨hrises, ?_⟩, ?_, hascends.ne_tlsTunnel hne⟩
    · show Rises (arrive .none (runActions h)) _
      rw [harrive]
      exact hascends.rises
    · show arrive (arrive .none (runActions h)) _ = _
      rw [harrive]
      exact hascends.arrive_eq

/-! ### Stages -/

/-- The stages that a notification state has left behind. -/
def announced (s : NotificationState) : List Signal :=
  (if NotificationState.responseHeaders.code ≤ s.code then [.requestRead] else []) ++
    (if NotificationState.responseBody.code ≤ s.code then [.responseHeadersRead] else []) ++
      if NotificationState.tlsTunnel.code ≤ s.code then [.responseRead] else []

theorem announced_sublist_error (s : NotificationState) :
    (announced s).Sublist (announced .error) := by
  cases s <;> decide

/-- **The invariant**: only stages left behind have been announced, each once and in turn, and a
failure has led to `Error`. -/
structure Staged (m : Machine) : Prop where
  sublist : (m.signals.filter Signal.isStage).Sublist (announced m.tx.notificationState)
  failed : .transactionFailed ∈ m.signals → m.tx.notificationState = .error
  pairwise : m.signals.Pairwise fun s s' ↦ s = .transactionFailed → s'.isStage = false

/-- More signals, that announce no more than has been left behind. -/
theorem Staged.append {new : List Signal} (hm : Staged m) (hsignals : m'.signals = m.signals ++ new)
    (hnew : (announced m.tx.notificationState ++ new.filter Signal.isStage).Sublist
      (announced m'.tx.notificationState))
    (herror : m.tx.notificationState = .error → m'.tx.notificationState = .error)
    (hfailed : .transactionFailed ∈ new → m'.tx.notificationState = .error ∧
      new.filter Signal.isStage = []) : Staged m' := by
  refine ⟨?_, ?_, ?_⟩
  · rw [hsignals, List.filter_append]
    exact (hm.sublist.append_right _).trans hnew
  · rw [hsignals, List.mem_append]
    rintro (hold | hin)
    · exact herror (hm.failed hold)
    · exact (hfailed hin).1
  · rw [hsignals, List.pairwise_append]
    refine ⟨hm.pairwise, ?_, ?_⟩
    · refine List.pairwise_of_forall_mem_list fun s hs s' hs' heq ↦ ?_
      have hnone := (hfailed (heq ▸ hs)).2
      simpa using List.filter_eq_nil_iff.1 hnone s' hs'
    · rintro s hs s' hs' rfl
      -- nothing is left to announce once the state is `Error`
      have hstate := hm.failed hs
      rw [herror hstate, hstate] at hnew
      have hnil : new.filter Signal.isStage = [] := by
        have hlength := hnew.length_le
        rw [List.length_append] at hlength
        exact List.eq_nil_of_length_eq_zero (by omega)
      simpa using List.filter_eq_nil_iff.1 hnil s' hs'

/-- What a notification announces is what it leaves behind. -/
theorem announced_append {ns s : NotificationState} (h : ns.code ≤ 7) (error : ErrorCode) :
    announced s ++ (((stepEvents error (ns.code - s.code) s ++ [Event.notified ns]).filterMap
        Event.signal?).filter Signal.isStage) =
      announced (if s.code ≤ ns.code then ns else s) := by
  cases ns <;> first | exact absurd h (by decide) | (cases s <;> rfl)

theorem failed_not_mem_stepEvents {ns s : NotificationState} (h : ns.code ≤ 7) (error : ErrorCode) :
    Signal.transactionFailed ∉
      (stepEvents error (ns.code - s.code) s ++ [Event.notified ns]).filterMap Event.signal? := by
  rw [List.mem_filterMap]
  rintro ⟨e, he, hsignal⟩
  rcases List.mem_append.1 he with he | he
  · have hprogress := isProgress_of_mem_stepEvents h e he
    cases e with
    | signal s' state error' =>
      obtain rfl := Option.some_inj.1 hsignal
      exact absurd hprogress (by simp [Event.isProgress])
    | _ => exact absurd hsignal.symm (Option.some_ne_none _)
  · obtain rfl := List.mem_singleton.1 he
    exact absurd hsignal.symm (Option.some_ne_none _)

theorem signals_of_trace (new : List Event) (htrace : m'.trace = m.trace ++ new) :
    m'.signals = m.signals ++ new.filterMap Event.signal? := by
  rw [Machine.signals, htrace, List.filterMap_append]
  rfl

/-- Events that emit no stage, in a state that is kept. -/
theorem Staged.of_trace (new : List Event) (hm : Staged m) (htrace : m'.trace = m.trace ++ new)
    (hstate : m'.tx.notificationState = m.tx.notificationState)
    (hnew : ∀ e ∈ new, ∀ s ∈ e.signal?, s = .transactionComplete) : Staged m' := by
  have hsignals : ∀ s ∈ new.filterMap Event.signal?, s = .transactionComplete := by
    intro s hs
    obtain ⟨e, he, hsignal⟩ := List.mem_filterMap.1 hs
    exact hnew e he s hsignal
  have hnone : (new.filterMap Event.signal?).filter Signal.isStage = [] :=
    List.filter_eq_nil_iff.2 fun s hs ↦ by rw [hsignals s hs]; decide
  refine hm.append (signals_of_trace new htrace) ?_ (fun herror ↦ hstate.trans herror) ?_
  · rw [hnone, List.append_nil, hstate]
  · exact fun hfailed ↦ absurd (hsignals _ hfailed) (by decide)

/-- **Every act keeps the invariant.** -/
theorem Staged.act (hm : Staged m) (hact : Act op m m') : Staged m' := by
  cases hact with
  | assign _ htrace _ hstate =>
    exact hm.of_trace [] (by rw [htrace, List.append_nil]) hstate (by simp)
  | start => exact hm.of_trace [] (List.append_nil _).symm rfl (by simp)
  | tryOpen | phase | complete => exact hm.of_trace _ rfl rfl (by simp [Event.signal?])
  | release =>
    refine hm.of_trace _ rfl rfl fun e he s hs ↦ ?_
    obtain ⟨c, -, rfl⟩ := List.mem_map.1 he
    exact absurd hs (Option.not_mem_none s)
  | notify ns hns =>
    rw [doNotification_eq]
    refine hm.append (signals_of_trace _ rfl) ?_ ?_ ?_
    · rw [announced_append hns m.tx.error]
    · intro herror
      simp only [herror]
      exact if_neg fun hle ↦ absurd (hle.trans hns) (by decide)
    · exact fun hfailed ↦ absurd hfailed (failed_not_mem_stepEvents hns _)
  | fail ec =>
    refine hm.append (signals_of_trace [.signal .transactionFailed .error ec] rfl) ?_
      (fun _ ↦ rfl) fun _ ↦ ⟨rfl, rfl⟩
    exact (List.append_nil _).symm ▸ announced_sublist_error m.tx.notificationState

theorem staged_of_run (hrun : system.Run h m) : Staged m := by
  refine hrun.invariant (fun m hm ↦ ?_) fun m l m' hm hstep ↦ ?_
  · obtain rfl := init_iff.1 hm
    exact ⟨by decide, by decide, by decide⟩
  · refine (does_of_handle hstep.2).keeps (fun m₁ hopens ↦ ?_) fun _ _ hm₁ hact ↦ hm₁.act hact
    generalize l.operation = op at hopens
    cases hopens <;> exact hm.of_trace [] (List.append_nil _).symm rfl nofun

/-! ### The two sides -/

/-- A phase of the request is reported by the handler of its reads only. -/
theorem Does.exists_new (hdoes : Does op m m') :
    ∃ new, m'.trace = m.trace ++ new ∧
      ∀ phase, .phaseNotified .request phase ∈ new → op = .readClientRequest := by
  refine hdoes.keeps (I := fun m' ↦ ∃ new, m'.trace = m.trace ++ new ∧
    ∀ phase, .phaseNotified .request phase ∈ new → op = .readClientRequest) (fun m₁ hopens ↦ ?_) ?_
  · refine ⟨[], ?_, nofun⟩
    cases hopens <;> exact (List.append_nil _).symm
  rintro m₁ m₂ ⟨new, htrace, hnew⟩ hact
  obtain ⟨more, hmore, hmode⟩ : ∃ more, m₂.trace = m₁.trace ++ more ∧
      ∀ phase, .phaseNotified .request phase ∈ more → op = .readClientRequest := by
    cases hact with
    | assign _ htrace => exact ⟨[], by rw [htrace, List.append_nil], nofun⟩
    | start => exact ⟨[], (List.append_nil _).symm, nofun⟩
    | tryOpen | complete | fail => exact ⟨_, rfl, by simp⟩
    | phase mode phase hmode =>
      refine ⟨_, rfl, fun phase' hmem ↦ hmode ?_⟩
      exact (Event.phaseNotified.inj (List.mem_singleton.1 hmem)).1.symm
    | release =>
      refine ⟨_, rfl, fun phase hmem ↦ ?_⟩
      obtain ⟨c, -, heq⟩ := List.mem_map.1 hmem
      exact nomatch heq
    | notify ns hns =>
      rw [doNotification_eq]
      refine ⟨_, rfl, fun phase hmem ↦ ?_⟩
      rcases List.mem_append.1 hmem with hmem | hmem
      · obtain ⟨signal, state, heq⟩ := exists_signal_of_mem_stepEvents hmem
        exact nomatch heq
      · exact nomatch List.mem_singleton.1 hmem
  refine ⟨new ++ more, by rw [hmore, htrace, List.append_assoc], fun phase hmem ↦ ?_⟩
  exact (List.mem_append.1 hmem).elim (hnew phase) (hmode phase)

/-- An event that belongs to the response is noted. -/
theorem isNote_of_isResponseSide {e : Event} (he : e.isResponseSide = true) : e.isNote = true := by
  cases e with
  | signal s state error =>
    have hs : s = .responseHeadersRead ∨ s = .responseRead := by
      simpa [Event.isResponseSide] using he
    rcases hs with rfl | rfl <;> rfl
  | notified | phaseNotified => rfl
  | tryOpen | close => exact absurd he Bool.false_ne_true

theorem isResponseSide_of_isEarly {e : Event} (he : e.isEarly = true) :
    e.isResponseSide = false := by
  cases e with
  | notified ns =>
    have hcode : ns.code ≤ 3 := by simpa [Event.isEarly] using he
    simp only [Event.isResponseSide, decide_eq_false_iff_not, not_lt]
    exact hcode.trans (by decide)
  | phaseNotified mode =>
    obtain rfl : mode = .request := by simpa [Event.isEarly] using he
    rfl
  | signal | tryOpen | close => exact absurd he Bool.false_ne_true

/-- Reading the request records nothing that belongs to the response. -/
theorem isResponseSide_of_isNoted {notes : List Event}
    (hop : l.operation = .readClientRequest) (hnoted : IsNoted m l notes) :
    ∀ e ∈ notes, e.isResponseSide = false := by
  rw [IsNoted, hop] at hnoted
  obtain ⟨early, hearly, hends, hnot⟩ := hnoted
  have hquiet : ∀ e ∈ early, e.isResponseSide = false :=
    fun e he ↦ isResponseSide_of_isEarly (hearly e he)
  by_cases hplain : endsPlainRequest m l
  · rw [hends hplain]
    exact List.forall_mem_append.2 ⟨hquiet, List.forall_mem_singleton.2 rfl⟩
  · rw [hnot hplain]
    exact hquiet

/-- While the request is read, nothing belongs to the response. -/
structure Sided (m : Machine) : Prop where
  reading : .readClientRequest ∈ m.pending → ∀ e ∈ m.trace, e.isResponseSide = false
  pairwise : m.trace.Pairwise fun e e' ↦ e.isResponseSide = true →
    ∀ phase, e' ≠ .phaseNotified .request phase

theorem Sided.step (hsided : Sided m) (hm : Control m) (hstep : system.step m l m') :
    Sided m' := by
  obtain ⟨new, notes, htrace, hnoted, -, hnotes⟩ := hm.exists_new hstep rfl
  by_cases hop : l.operation = .readClientRequest
  · have hnew : ∀ e ∈ new, e.isResponseSide = false := by
      intro e he
      cases hside : e.isResponseSide with
      | false => rfl
      | true =>
        have hmem : e ∈ notes := hnotes ▸ List.mem_filter.2 ⟨he, isNote_of_isResponseSide hside⟩
        exact hside.symm.trans (isResponseSide_of_isNoted hop hnoted e hmem)
    have hall : ∀ e ∈ m'.trace, e.isResponseSide = false := by
      rw [htrace]
      exact List.forall_mem_append.2 ⟨hsided.reading (hop ▸ hstep.1), hnew⟩
    refine ⟨fun _ ↦ hall, List.pairwise_of_forall_mem_list fun e he _ _ hside ↦ ?_⟩
    exact absurd (hside.symm.trans (hall e he)) (by decide)
  · obtain ⟨more, hmore, hmode⟩ := (does_of_handle hstep.2).exists_new
    obtain rfl : more = new := List.append_cancel_left (hmore.symm.trans htrace)
    refine ⟨fun hpending ↦ absurd ?_ hop, ?_⟩
    · obtain ⟨_, -, happlied⟩ := hm.applied hstep rfl
      rw [happlied.pending] at hpending
      rcases List.mem_append.1 hpending with hold | hadded
      · -- outside the tunnel it would be the only operation
        have hmem := List.mem_of_mem_erase hold
        have hp := (hm.stage.expected hmem rfl).1
        exact List.mem_singleton.1 (hp ▸ hstep.1)
      · exact operation_of_readClientRequest hadded
    · rw [htrace, List.pairwise_append]
      refine ⟨hsided.pairwise, ?_, fun e _ e' he' _ phase heq ↦ ?_⟩
      · exact List.pairwise_of_forall_mem_list fun _ _ e' he' _ phase heq ↦
          hop (hmode phase (heq ▸ he'))
      · exact hop (hmode phase (heq ▸ he'))

theorem sided_of_run (hrun : system.Run h m) : Sided m := by
  induction hrun with
  | start hm =>
    obtain rfl := init_iff.1 hm
    exact ⟨fun _ ↦ by decide, List.pairwise_singleton _ _⟩
  | move hrun hstep ih => exact ih.step (control_of_run hrun) hstep

/-! ### Every run -/

/-- **The progress of a transaction is monotone**, in every run. -/
theorem monotone_of_run (hrun : system.Run h m) : Monotone h m := by
  obtain ⟨hrises, hstate, -⟩ := rises_of_run hrun
  have hstaged := staged_of_run hrun
  have hascending (as bs : List Action) (hpre : as ++ bs <+: runActions h) :
      (arrive .none as).code ≤ (arrive .none (as ++ bs)).code := by
    obtain ⟨rest, heq⟩ := hpre
    rw [← heq, rises_append_iff, rises_append_iff] at hrises
    rw [arrive_append]
    exact hrises.1.2.code_le
  refine ⟨hstate, hascending, fun as bs hpre herror ↦ ?_, ?_, hstaged.pairwise,
    (sided_of_run hrun).pairwise⟩
  · have hle := hascending as bs hpre
    rw [herror] at hle
    generalize arrive .none (as ++ bs) = s at hle
    cases s <;> first | rfl | exact absurd hle (by decide)
  · exact hstaged.sublist.trans (announced_sublist_error _)

/-- A response with a body is relayed: two stages are announced. -/
theorem requestRelayed_monotone :
    ∃ h m, system.Run h m ∧
      m.signals.filter Signal.isStage = [.requestRead, .responseHeadersRead] ∧ Monotone h m := by
  obtain ⟨h, m, hrun, hsignals⟩ := exists_run_of_follow
    (requestLabels ++
      [⟨.readRemoteResponse,
          { data := asciiBytes "HTTP/1.1 200 OK\r\nContent-Length: 2\r\n\r\nhi" }⟩])
    (fun _ m ↦ m.signals.filter Signal.isStage = [.requestRead, .responseHeadersRead])
    (by decide +kernel)
  exact ⟨h, m, hrun, hsignals, monotone_of_run hrun⟩

end Transaction

end Amanuensis
