import Mathlib.Logic.Function.Iterate
import Amanuensis.Transaction.Handlers

/-!
# What notifications do

`do_notification` walks the notification state up to the one it is given and emits what belongs to
the states it leaves (`doNotification_eq`). Nothing else of the transaction changes, which
`Advances` says of any sequence of notifications, together with a bound on the state reached and
the kind of events recorded: below `ResponseHeaders` nothing is emitted, and up to
`ResponseComplete` the end of the transaction is never announced.
-/

namespace Amanuensis

namespace Event

/-- What is recorded while a request is read. -/
def isEarly : Event → Bool
  | notified ns => ns.code ≤ 3
  | phaseNotified mode _ => mode = .request
  | _ => false

/-- A return, or a signal that announces progress. -/
def isQuiet : Event → Bool
  | notified _ | phaseNotified _ _ => true
  | signal s _ _ => s = .requestRead ∨ s = .responseHeadersRead
  | _ => false

/-- A return, or a signal that announces progress, with the state it is emitted in. -/
def isProgress : Event → Bool
  | notified _ | phaseNotified _ _ => true
  | signal s state _ =>
    (s = .requestRead ∧ state = .responseHeaders) ∨
      (s = .responseHeadersRead ∧ state = .responseBody)
  | _ => false

theorem isQuiet_of_isProgress {e : Event} (h : e.isProgress = true) : e.isQuiet = true := by
  cases e with
  | signal s state error =>
    have hs : s = .requestRead ∧ state = .responseHeaders ∨
        s = .responseHeadersRead ∧ state = .responseBody := by simpa [isProgress] using h
    simpa [isQuiet] using hs.imp And.left And.left
  | notified | phaseNotified => rfl
  | tryOpen | close => exact absurd h (by simp [isProgress])

theorem isQuiet_of_isEarly {e : Event} (h : e.isEarly = true) : e.isQuiet = true := by
  cases e <;> first | rfl | exact absurd h (by simp [isEarly])

end Event

namespace Transaction

open HttpMessageParser

/-! ### The events of a notification -/

/-- The signals emitted when a state is left. -/
def leaveEvents (current : NotificationState) (error : ErrorCode) : List Event :=
  match current with
  | .requestComplete => [.signal .requestRead current.next error]
  | .responseHeaders => [.signal .responseHeadersRead current.next error]
  | .responseComplete =>
    [.signal .responseRead current.next error, .signal .transactionComplete current.next error]
  | _ => []

/-- The signals of a number of iterations. -/
def stepEvents (error : ErrorCode) : ℕ → NotificationState → List Event
  | 0, _ => []
  | n + 1, s => leaveEvents s error ++ stepEvents error n s.next

theorem leave_eq (s : NotificationState) (m : Machine) (hm : m.tx.notificationState = s.next) :
    leave s m = { m with trace := m.trace ++ leaveEvents s m.tx.error } := by
  cases s <;> simp [leave, leaveEvents, Machine.emit, Machine.record, hm]

theorem notifySteps_eq (n : ℕ) (m : Machine) :
    notifySteps n m =
      { m with
        trace := m.trace ++ stepEvents m.tx.error n m.tx.notificationState
        tx.notificationState := NotificationState.next^[n] m.tx.notificationState } := by
  induction n generalizing m with
  | zero => simp [notifySteps, stepEvents]
  | succ n ih =>
    rw [notifySteps, leave_eq _ _ rfl, ih]
    simp [stepEvents, List.append_assoc]

/-- **What `do_notification` does.** -/
theorem doNotification_eq (ns : NotificationState) (m : Machine) :
    doNotification ns m =
      { m with
        trace := m.trace ++ (stepEvents m.tx.error (ns.code - m.tx.notificationState.code)
          m.tx.notificationState ++ [.notified ns])
        tx.notificationState :=
          if m.tx.notificationState.code ≤ ns.code then ns else m.tx.notificationState } := by
  have hstate (s : NotificationState) :
      NotificationState.next^[ns.code - s.code] s = if s.code ≤ ns.code then ns else s := by
    cases ns <;> cases s <;> rfl
  rw [doNotification, notifySteps_eq, hstate, Machine.record]
  simp [List.append_assoc]

/-- A notification ahead of the state sets it, and only adds to the trace. -/
theorem exists_doNotification_eq {ns : NotificationState} {m : Machine}
    (h : m.tx.notificationState.code ≤ ns.code) :
    ∃ new, doNotification ns m =
      { m with trace := m.trace ++ new, tx.notificationState := ns } :=
  ⟨_, by rw [doNotification_eq, if_pos h]⟩

theorem exists_signal_of_mem_stepEvents {error : ErrorCode} {n : ℕ} {s : NotificationState}
    {e : Event} (he : e ∈ stepEvents error n s) :
    ∃ signal state, e = .signal signal state error := by
  induction n generalizing s with
  | zero => exact nomatch he
  | succ n ih =>
    rcases List.mem_append.1 he with he | he
    · cases s <;> simp [leaveEvents] at he <;> grind
    · exact ih he

theorem stepEvents_eq_nil {error : ErrorCode} {ns s : NotificationState} (h : ns.code ≤ 4) :
    stepEvents error (ns.code - s.code) s = [] := by
  cases ns <;> first | exact absurd h (by decide) | (cases s <;> rfl)

theorem isProgress_of_mem_stepEvents {error : ErrorCode} {ns s : NotificationState}
    (h : ns.code ≤ 7) : ∀ e ∈ stepEvents error (ns.code - s.code) s, e.isProgress = true := by
  cases ns <;> first
    | exact absurd h (by decide)
    | (cases s <;>
        simp [stepEvents, leaveEvents, NotificationState.code, NotificationState.next,
          Event.isProgress])

/-! ### Sequences of notifications -/

/-- `m'` is `m` after notifications that reach no state past `bound` and record events of one
kind. -/
def Advances (bound : ℕ) (kind : Event → Bool) (m m' : Machine) : Prop :=
  ∃ (s : NotificationState) (new : List Event),
    m' = { m with tx.notificationState := s, trace := m.trace ++ new } ∧
      m.tx.notificationState.code ≤ s.code ∧ s.code ≤ bound ∧ ∀ e ∈ new, kind e = true

namespace Advances

variable {bound : ℕ} {kind : Event → Bool} {m m' m'' : Machine}

theorem refl (hm : m.tx.notificationState.code ≤ bound) : Advances bound kind m m :=
  ⟨m.tx.notificationState, [], by simp, le_rfl, hm, by simp⟩

theorem trans (h : Advances bound kind m m') (h' : Advances bound kind m' m'') :
    Advances bound kind m m'' := by
  obtain ⟨s, new, rfl, hle, -, hnew⟩ := h
  obtain ⟨s', new', rfl, hle', hbound, hnew'⟩ := h'
  refine ⟨s', new ++ new', by simp [List.append_assoc], hle.trans hle', hbound, ?_⟩
  exact List.forall_mem_append.2 ⟨hnew, hnew'⟩

/-- A return is recorded. -/
theorem record (hm : m.tx.notificationState.code ≤ bound) {e : Event} (he : kind e = true) :
    Advances bound kind m (m.record e) :=
  ⟨m.tx.notificationState, [e], rfl, le_rfl, hm, by simpa using he⟩

theorem code_le (h : Advances bound kind m m') : m'.tx.notificationState.code ≤ bound := by
  obtain ⟨s, new, rfl, -, hs, -⟩ := h
  exact hs

end Advances

/-- A notification below `ResponseHeaders` emits nothing. -/
theorem advances_doNotification_of_le_four {ns : NotificationState} {m : Machine} {bound : ℕ}
    {kind : Event → Bool} (hns : ns.code ≤ 4) (hbound : ns.code ≤ bound)
    (hm : m.tx.notificationState.code ≤ bound) (hkind : kind (.notified ns) = true) :
    Advances bound kind m (doNotification ns m) := by
  refine ⟨_, _, doNotification_eq ns m, ?_, ?_, ?_⟩
  · split_ifs with h
    · exact h
    · exact le_rfl
  · split_ifs
    · exact hbound
    · exact hm
  · rw [stepEvents_eq_nil hns]
    simpa using hkind

/-- A notification up to `ResponseComplete` announces progress at most. -/
theorem advances_doNotification {ns : NotificationState} {m : Machine} {bound : ℕ}
    (hbound : bound ≤ 7) (hns : ns.code ≤ bound) (hm : m.tx.notificationState.code ≤ bound) :
    Advances bound Event.isProgress m (doNotification ns m) := by
  refine ⟨_, _, doNotification_eq ns m, ?_, ?_, ?_⟩
  · split_ifs with h
    · exact h
    · exact le_rfl
  · split_ifs
    · exact hns
    · exact hm
  · refine List.forall_mem_append.2 ⟨isProgress_of_mem_stepEvents (hns.trans hbound), ?_⟩
    simp [Event.isProgress]

/-! ### Phases -/

/-- The phases that parsing reports before the end of a message. -/
def IsReported (phase : ParsePhase) : Prop :=
  phase = .receivedMessageLine ∨ phase = .receivedHeaders

theorem getPhase_eq_or_isReported (p : ParsePhase) (s s' : ParserState) :
    getPhaseForStateTransition p s s' = p ∨ IsReported (getPhaseForStateTransition p s s') := by
  unfold getPhaseForStateTransition
  split
  · exact Or.inl rfl
  · split
    · split
      · exact Or.inr (Or.inl rfl)
      · exact Or.inl rfl
    · split
      · exact Or.inr (Or.inr rfl)
      · exact Or.inl rfl
    · split
      · exact Or.inr (Or.inr rfl)
      · exact Or.inl rfl
    · exact Or.inl rfl

theorem isReported_of_mem_phaseChanges {c : Cursor} {bytes : QByteArray} {p : ParsePhase}
    (hp : p ∈ phaseChanges c bytes) : IsReported p := by
  rw [phaseChanges, List.reduceOption_mem_iff] at hp
  induction bytes generalizing c with
  | nil => exact absurd hp List.not_mem_nil
  | cons input rest ih =>
    rcases hs : scanner.step c input with ⟨_ | o, c'⟩
    · by_cases ho : c'.phase = c.phase
      · rw [scanner.changes_cons_of_eq _ hs ho] at hp
        exact ih hp
      · rw [scanner.changes_cons_of_ne _ hs ho] at hp
        rcases List.mem_cons.1 hp with heq | hp
        · have hfollows := follows_consume c input
          rw [consume_of_scanner_step_none hs, Cursor.Follows] at hfollows
          rcases hc : c.phase with - | phase
          · rw [hfollows, hc] at heq
            exact absurd heq (by simp)
          · rw [hc, Option.map_some] at hfollows
            rw [hfollows, Option.some.injEq] at heq
            refine heq ▸ (getPhase_eq_or_isReported _ _ _).resolve_left fun hsame ↦ ho ?_
            rw [hfollows, hsame, hc]
        · exact ih hp
    · rw [scanner.changes_cons_of_some _ hs] at hp
      exact absurd hp List.not_mem_nil

/-- A phase notifies the state it stands for, and is reported. -/
theorem advances_of_phase {bound : ℕ} {kind : Event → Bool} {mode : Mode} {phase : ParsePhase}
    {m : Machine} (hm : m.tx.notificationState.code ≤ bound)
    (hphase : ∀ ns, notificationOfPhase phase m.tx.notificationState = some ns →
      Advances bound kind m (doNotification ns m))
    (hkind : kind (.phaseNotified mode phase) = true) :
    Advances bound kind m (notifyPhaseChange mode phase m) := by
  rw [notifyPhaseChange]
  cases hns : notificationOfPhase phase m.tx.notificationState with
  | none => exact Advances.record hm hkind
  | some ns =>
    have hadv := hphase ns hns
    exact hadv.trans (Advances.record hadv.code_le hkind)

/-- Phases of the request are reported silently. -/
theorem advances_notifyPhaseChange_request {phase : ParsePhase} (hp : IsReported phase)
    {m : Machine} (hm : m.tx.notificationState.code ≤ 3) :
    Advances 3 Event.isEarly m (notifyPhaseChange .request phase m) := by
  have hside : m.tx.notificationState.code < NotificationState.requestComplete.code :=
    Nat.lt_succ_of_le hm
  refine advances_of_phase hm (fun ns hns ↦ ?_) rfl
  rcases hp with rfl | rfl
  all_goals
    rw [notificationOfPhase, if_pos hside] at hns
    obtain rfl := Option.some_inj.1 hns
    exact advances_doNotification_of_le_four (by decide) (by decide) hm (by decide)

/-- Phases of the response announce progress at most, and lead no further than
`ResponseHeaders`. -/
theorem advances_notifyPhaseChange (mode : Mode) {phase : ParsePhase} (hp : IsReported phase)
    {m : Machine} (hm : m.tx.notificationState.code ≤ 5) :
    Advances 5 Event.isProgress m (notifyPhaseChange mode phase m) := by
  refine advances_of_phase hm (fun ns hns ↦ ?_) rfl
  rcases hp with rfl | rfl
  all_goals rw [notificationOfPhase] at hns
  · split_ifs at hns
    obtain rfl := Option.some_inj.1 hns
    exact advances_doNotification (by decide) (by decide) hm
  · obtain rfl := Option.some_inj.1 hns
    split_ifs
    · exact advances_doNotification (by decide) (by decide) hm
    · exact advances_doNotification (by decide) (by decide) hm

/-- **Reporting the phases of a read** is a sequence of notifications. -/
theorem advances_foldl {bound : ℕ} {kind : Event → Bool} {mode : Mode} {P : ParsePhase → Prop}
    (hstep : ∀ phase m, P phase → m.tx.notificationState.code ≤ bound →
      Advances bound kind m (notifyPhaseChange mode phase m))
    {phases : List ParsePhase} (hphases : ∀ p ∈ phases, P p) {m : Machine}
    (hm : m.tx.notificationState.code ≤ bound) :
    Advances bound kind m (phases.foldl (fun m phase ↦ notifyPhaseChange mode phase m) m) := by
  induction phases generalizing m with
  | nil => exact Advances.refl hm
  | cons p phases ih =>
    obtain ⟨hp, hphases⟩ := List.forall_mem_cons.1 hphases
    have h := hstep p m hp hm
    exact h.trans (ih hphases h.code_le)

end Transaction

end Amanuensis
