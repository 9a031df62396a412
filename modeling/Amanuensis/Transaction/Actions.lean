import Amanuensis.Transaction.Primitives
import Amanuensis.Transaction.Termination

/-!
# What another thread sees of a handler

While a handler runs, another thread may look on: it sees the handler enter notification states and
emit signals. Every assignment to the state is followed by an event that tells the state, a signal
or the return of `do_notification`, so that these actions can be read off the events (`actionsOf`).
In between the states are entered one by one, as the loop of `do_notification` does
(`actionsOf_doNotification`), and `Error` at once, as `notify_failure` does.

Every handler only moves on (`ascends_of_step`): it enters no state twice and never `TLSTunnel`.
-/

namespace Amanuensis

/-- What another thread sees. -/
inductive Action
  | enter (state : NotificationState)
  | emit (s : Signal)
  deriving DecidableEq, Repr

/-- The state when an event is recorded, from the state before. -/
def Event.seen (s : NotificationState) : Event → NotificationState
  | .signal _ state _ => state
  | .notified ns => if s.code ≤ ns.code then ns else s
  | _ => s

namespace Transaction

open HttpMessageParser LabelledSystem

/-- The states entered on the way from one to another. -/
def approach (s s' : NotificationState) : List Action :=
  if s' = .error then if s = .error then [] else [.enter .error]
  else (List.range (s'.code - s.code)).map fun i ↦ .enter (NotificationState.next^[i + 1] s)

/-- **The actions** that events tell of, from a state on. -/
def actionsOf : NotificationState → List Event → List Action
  | _, [] => []
  | s, e :: events =>
    approach s (e.seen s) ++ e.signal?.toList.map .emit ++ actionsOf (e.seen s) events

/-- The actions of a number of iterations of the loop of `do_notification`. -/
def loopActions : ℕ → NotificationState → List Action
  | 0, _ => []
  | n + 1, s =>
    .enter s.next :: ((leaveEvents s {}).filterMap Event.signal?).map .emit ++ loopActions n s.next

/-- What is read off the events of `do_notification` is what its loop does. -/
theorem actionsOf_doNotification {ns s : NotificationState} (h : ns.code ≤ 7) (error : ErrorCode) :
    actionsOf s (stepEvents error (ns.code - s.code) s ++ [.notified ns]) =
      loopActions (ns.code - s.code) s := by
  cases ns <;> first | exact absurd h (by decide) | (cases s <;> rfl)

/-! ### Events in ascending order -/

/-- The events lead from a state to a state, upwards and past `TLSTunnel`. -/
def Ascends : NotificationState → List Event → NotificationState → Prop
  | s, [], s' => s = s'
  | s, e :: events, s' =>
    s.code ≤ (e.seen s).code ∧ e.seen s ≠ .tlsTunnel ∧ Ascends (e.seen s) events s'

variable {s s' s'' : NotificationState} {xs ys : List Event}

theorem Ascends.append (hx : Ascends s xs s') (hy : Ascends s' ys s'') :
    Ascends s (xs ++ ys) s'' := by
  induction xs generalizing s with
  | nil =>
    obtain rfl : s = s' := hx
    exact hy
  | cons e xs ih => exact ⟨hx.1, hx.2.1, ih hx.2.2⟩

theorem ascends_of_seen (hs : s ≠ .tlsTunnel) (hx : ∀ e ∈ xs, e.seen s = s) : Ascends s xs s := by
  induction xs with
  | nil => rfl
  | cons e xs ih =>
    obtain ⟨he, hxs⟩ := List.forall_mem_cons.1 hx
    rw [Ascends, he]
    exact ⟨le_rfl, hs, ih hxs⟩

theorem Ascends.code_le (hx : Ascends s xs s') : s.code ≤ s'.code := by
  induction xs generalizing s with
  | nil => exact (congrArg NotificationState.code hx).le
  | cons e xs ih => exact hx.1.trans (ih hx.2.2)

theorem Ascends.ne_tlsTunnel (hx : Ascends s xs s') (hs : s ≠ .tlsTunnel) : s' ≠ .tlsTunnel := by
  induction xs generalizing s with
  | nil =>
    obtain rfl : s = s' := hx
    exact hs
  | cons e xs ih => exact ih hx.2.2 hx.2.1

variable {m m' m₁ : Machine}

/-- What a machine records tells of its state. -/
def Tells (m m' : Machine) : Prop :=
  m.tx.notificationState ≠ .tlsTunnel →
    ∃ new, m'.trace = m.trace ++ new ∧
      Ascends m.tx.notificationState new m'.tx.notificationState

theorem Tells.trans (h : Tells m m₁) (h' : Tells m₁ m') : Tells m m' := by
  intro hm
  obtain ⟨xs, htrace, hx⟩ := h hm
  obtain ⟨ys, htrace', hy⟩ := h' (hx.ne_tlsTunnel hm)
  exact ⟨xs ++ ys, by rw [htrace', htrace, List.append_assoc], hx.append hy⟩

/-- Nothing is recorded and the state is kept. -/
theorem tells_of_eq (htrace : m'.trace = m.trace)
    (hstate : m'.tx.notificationState = m.tx.notificationState) : Tells m m' :=
  fun _ ↦ ⟨[], by rw [htrace, List.append_nil], hstate.symm⟩

theorem tells_emit (s : Signal) (m : Machine) : Tells m (m.emit s) :=
  fun hm ↦ ⟨_, rfl, ascends_of_seen hm (by simp [Event.seen])⟩

/-! ### The acts of a handler -/

theorem tells_doNotification {ns : NotificationState} (h : ns.code ≤ 7) (m : Machine) :
    Tells m (doNotification ns m) := by
  intro hm
  rw [doNotification_eq]
  refine ⟨_, rfl, ?_⟩
  show Ascends _ _ (if m.tx.notificationState.code ≤ ns.code then ns else m.tx.notificationState)
  generalize m.tx.notificationState = s at *
  cases ns <;> first
    | exact absurd h (by decide)
    | (cases s <;> first
        | exact absurd rfl hm
        | simp [stepEvents, leaveEvents, Ascends, Event.seen, NotificationState.code,
            NotificationState.next])

/-- An act only moves on, and tells the state it ends in. -/
theorem Act.tells {op : Operation} (h : Act op m m') : Tells m m' := by
  cases h with
  | assign _ htrace _ hstate => exact tells_of_eq htrace hstate
  | start => exact tells_of_eq rfl rfl
  | tryOpen | phase => exact fun hm ↦ ⟨_, rfl, ascends_of_seen hm (by simp [Event.seen])⟩
  | notify ns hns => exact tells_doNotification hns m
  | release =>
    refine fun hm ↦ ⟨_, rfl, ascends_of_seen hm fun e he ↦ ?_⟩
    obtain ⟨c, -, rfl⟩ := List.mem_map.1 he
    rfl
  | fail ec =>
    -- the signal tells that the state is now `Error`, which comes after every other state
    refine fun _ ↦ ⟨_, rfl, ?_, by simp [Event.seen], rfl⟩
    show m.tx.notificationState.code ≤ NotificationState.error.code
    cases m.tx.notificationState <;> decide
  | complete => exact tells_emit _ m

/-- **Every handler** only moves on, and tells the state it ends in. -/
theorem tells_of_handle {op : Operation} {c : Completion} (hm : handle op c m = .ok m') :
    Tells m m' := by
  refine (does_of_handle hm).keeps (I := Tells m) (fun m₁ hopens ↦ ?_)
    fun m₁ m₂ htells hact ↦ htells.trans hact.tells
  cases hopens <;> exact tells_of_eq rfl rfl

/-! ### The actions of a step -/

theorem code_injective : Function.Injective NotificationState.code := by
  intro s s' h
  cases s <;> cases s' <;> first | rfl | exact absurd h (by decide)

/-- The state that actions lead to. -/
def arrive : NotificationState → List Action → NotificationState
  | s, [] => s
  | _, .enter state :: as => arrive state as
  | s, .emit _ :: as => arrive s as

theorem arrive_append (s : NotificationState) (as bs : List Action) :
    arrive s (as ++ bs) = arrive (arrive s as) bs := by
  induction as generalizing s with
  | nil => rfl
  | cons a as ih => cases a <;> exact ih _

theorem arrive_approach (h : s.code ≤ s'.code) : arrive s (approach s s') = s' := by
  cases s <;> cases s' <;> first | rfl | exact absurd h (by decide)

theorem arrive_emit (s : NotificationState) (e : Event) :
    arrive s (e.signal?.toList.map .emit) = s := by
  cases e <;> rfl

/-- The states on which `transactionUpdated` gives up a transaction. -/
def IsFinal (s : NotificationState) : Prop := s = .error ∨ s = .responseComplete

instance (s : NotificationState) : Decidable (IsFinal s) :=
  inferInstanceAs (Decidable (s = .error ∨ s = .responseComplete))

/-- After a final state, nothing but `Error` is entered. -/
def Calm : NotificationState → List Action → Prop
  | _, [] => True
  | s, .enter state :: as => (IsFinal s → state = .error) ∧ Calm state as
  | s, .emit _ :: as => Calm s as

theorem Calm.append {as bs : List Action} (ha : Calm s as) (hb : Calm (arrive s as) bs) :
    Calm s (as ++ bs) := by
  induction as generalizing s with
  | nil => exact hb
  | cons a as ih =>
    cases a with
    | enter state => exact ⟨ha.1, ih ha.2 hb⟩
    | emit => exact ih ha hb

theorem calm_approach (h : s.code ≤ s'.code) (hs' : s' ≠ .tlsTunnel) : Calm s (approach s s') := by
  cases s <;> cases s' <;> first
    | exact absurd h (by decide)
    | exact absurd rfl hs'
    | simp [approach, Calm, IsFinal, NotificationState.code, NotificationState.next,
        List.range_succ]

theorem calm_emit (s : NotificationState) (e : Event) :
    Calm s (e.signal?.toList.map .emit) := by
  cases e <;> trivial

/-- Events in ascending order tell the states and are calm. -/
theorem Ascends.arrive_eq (h : Ascends s xs s') : arrive s (actionsOf s xs) = s' := by
  induction xs generalizing s with
  | nil => exact h
  | cons e xs ih =>
    rw [actionsOf, arrive_append, arrive_append, arrive_approach h.1, arrive_emit]
    exact ih h.2.2

theorem Ascends.calm (h : Ascends s xs s') : Calm s (actionsOf s xs) := by
  induction xs generalizing s with
  | nil => trivial
  | cons e xs ih =>
    refine ((calm_approach h.1 h.2.1).append (calm_emit _ e)).append ?_
    rw [arrive_append, arrive_approach h.1, arrive_emit]
    exact ih h.2.2

theorem Ascends.split (h : Ascends s (xs ++ ys) s') :
    ∃ s₁, Ascends s xs s₁ ∧ Ascends s₁ ys s' ∧
      actionsOf s (xs ++ ys) = actionsOf s xs ++ actionsOf s₁ ys := by
  induction xs generalizing s with
  | nil => exact ⟨s, rfl, h, rfl⟩
  | cons e xs ih =>
    obtain ⟨s₁, hx, hy, hactions⟩ := ih h.2.2
    refine ⟨s₁, ⟨h.1, h.2.1, hx⟩, hy, ?_⟩
    rw [List.cons_append, actionsOf, actionsOf, hactions, List.append_assoc _ _ (actionsOf s₁ ys)]

/-- No state is entered between two moments at which the state is the same. -/
theorem Ascends.enter_not_mem (h : Ascends s xs s) (state : NotificationState) :
    .enter state ∉ actionsOf s xs := by
  induction xs with
  | nil => exact List.not_mem_nil
  | cons e xs ih =>
    -- the state can neither rise nor fall
    have hsame : e.seen s = s := code_injective (le_antisymm h.2.2.code_le h.1)
    have hrest : Ascends s xs s := by
      have hrest := h.2.2
      rwa [hsame] at hrest
    have happroach : approach s s = [] := by cases s <;> rfl
    rw [actionsOf, hsame, happroach]
    have hemit : .enter state ∉ e.signal?.toList.map Action.emit := by simp
    exact List.not_mem_append hemit (ih hrest)

/-- A signal is emitted, to whom the model may listen, and no state is entered after it. -/
def EndsEmitting (as : List Action) : Prop :=
  ∃ before signal after, as = before ++ .emit signal :: after ∧ signal ≠ .transactionStart ∧
    ∀ state, .enter state ∉ after

theorem EndsEmitting.of_enter {state : NotificationState} {as : List Action}
    (h : EndsEmitting (.enter state :: as)) : EndsEmitting as := by
  obtain ⟨before, signal, after, heq, hrest⟩ := h
  cases before with
  -- what comes first is entered, not emitted
  | nil => exact nomatch (List.cons.inj heq).1
  | cons a before => exact ⟨before, signal, after, (List.cons.inj heq).2, hrest⟩

theorem EndsEmitting.of_emit {signal : Signal} {as : List Action}
    (h : EndsEmitting (.emit signal :: as)) :
    EndsEmitting as ∨ signal ≠ .transactionStart ∧ ∀ state, .enter state ∉ as := by
  obtain ⟨before, signal', after, heq, hsignal, hafter⟩ := h
  cases before with
  | nil =>
    obtain ⟨hhead, rfl⟩ := List.cons.inj heq
    obtain rfl := Action.emit.inj hhead
    exact .inr ⟨hsignal, hafter⟩
  | cons a before => exact .inl ⟨before, signal', after, (List.cons.inj heq).2, hsignal, hafter⟩

theorem not_endsEmitting_nil : ¬ EndsEmitting [] := by
  rintro ⟨before, signal, after, heq, -⟩
  cases before <;> exact nomatch heq

/-- A signal told with the state that is the last one is emitted after that state is entered. -/
theorem Ascends.endsEmitting {signal : Signal} {error : ErrorCode} (h : Ascends s xs s')
    (he : .signal signal s' error ∈ xs) (hsignal : signal ≠ .transactionStart) :
    EndsEmitting (actionsOf s xs) := by
  obtain ⟨before, after, rfl⟩ := List.append_of_mem he
  obtain ⟨s₁, -, ⟨-, -, hafter⟩, hactions⟩ := h.split
  refine ⟨actionsOf s before ++ approach s₁ s', signal, actionsOf s' after, ?_, hsignal,
    hafter.enter_not_mem⟩
  rw [hactions, actionsOf]
  show _ ++ (approach s₁ s' ++ [.emit signal] ++ actionsOf s' after) = _
  simp

/-- Without a signal or a return, the state is kept. -/
theorem Ascends.eq_of_seen (h : Ascends s xs s') (hx : ∀ e ∈ xs, e.seen s = s) : s' = s := by
  induction xs with
  | nil => exact h.symm
  | cons e xs ih =>
    obtain ⟨he, hxs⟩ := List.forall_mem_cons.1 hx
    exact ih (he ▸ h.2.2) hxs

/-! ### The actions of a handler -/

/-- **The actions of a handler** that leads from one machine to another. -/
def actions (m m' : Machine) : List Action :=
  actionsOf m.tx.notificationState (m'.trace.drop m.trace.length)

variable {l : Label}

theorem ascends_of_step (hs : m.tx.notificationState ≠ .tlsTunnel)
    (hstep : system.step m l m') :
    Ascends m.tx.notificationState (m'.trace.drop m.trace.length) m'.tx.notificationState := by
  have htells : Tells (m.without l.operation) m' := tells_of_handle hstep.2
  obtain ⟨new, htrace, hascends⟩ := htells hs
  have htrace' : m'.trace = m.trace ++ new := htrace
  rw [htrace', List.drop_left]
  exact hascends

/-- The events of a step, by its effect. -/
theorem exists_notes_of_actions {e : Effect} (hm : Control m) (hstep : system.step m l m')
    (he : effectOf m l = e) :
    ∃ notes, IsNoted m l notes ∧
      (m'.trace.drop m.trace.length).filter Event.isTerminal = e.ends m.tx ∧
      (m'.trace.drop m.trace.length).filter Event.isNote = notes := by
  obtain ⟨new, notes, htrace, hnoted, hends, hnotes⟩ := hm.exists_new hstep he
  rw [htrace, List.drop_left]
  exact ⟨notes, hnoted, hends, hnotes⟩

/-- The end of a transaction is emitted after the last state has been entered. -/
theorem endsEmitting_of_step {e : Effect} (hm : Control m)
    (hs : m.tx.notificationState ≠ .tlsTunnel) (hstep : system.step m l m')
    (he : effectOf m l = e) (hends : e.ends m.tx ≠ []) : EndsEmitting (actions m m') := by
  have hascends := ascends_of_step hs hstep
  obtain ⟨notes, -, hterminal, -⟩ := exists_notes_of_actions hm hstep he
  obtain ⟨_, -, happlied⟩ := hm.applied hstep he
  have hmem (error : ErrorCode)
      (hlast : .signal .transactionComplete m'.tx.notificationState error ∈ e.ends m.tx) :
      EndsEmitting (actions m m') :=
    hascends.endsEmitting (List.mem_of_mem_filter (hterminal ▸ hlast)) (by decide)
  have hstate := happlied.state
  cases e with
  | proceed | release => exact absurd rfl hends
  | finish =>
    have hstate : m'.tx.notificationState = m.tx.notificationState := hstate
    exact hmem m.tx.error (by simp [Effect.ends, hstate])
  | fail ec =>
    have hstate : m'.tx.notificationState = .error := hstate
    exact hmem ec (by simp [Effect.ends, hstate])

/-- A step that notes nothing and ends nothing keeps the state. -/
theorem state_of_step_tunnel {e : Effect} (hm : Control m)
    (hs : m.tx.notificationState ≠ .tlsTunnel) (hstep : system.step m l m')
    (hd : l.operation.direction ≠ none) (he : effectOf m l = e) (hends : e.ends m.tx = []) :
    m'.tx.notificationState = m.tx.notificationState := by
  obtain ⟨notes, hnoted, hterminal, hnotes⟩ := exists_notes_of_actions hm hstep he
  -- nothing is noted while a tunnel is relayed
  have hnil : notes = [] := by
    obtain ⟨op, c⟩ := l
    cases op <;> first | exact hnoted | exact absurd rfl hd
  rw [hnil] at hnotes
  rw [hends] at hterminal
  refine (ascends_of_step hs hstep).eq_of_seen fun e he ↦ ?_
  have hquiet := List.filter_eq_nil_iff.1 hterminal e he
  have hunnoted := List.filter_eq_nil_iff.1 hnotes e he
  cases e with
  | tryOpen | close => rfl
  | notified | phaseNotified => exact absurd rfl hunnoted
  | signal s state error =>
    cases s <;> first | exact absurd rfl hquiet | exact absurd rfl hunnoted

end Transaction

end Amanuensis
