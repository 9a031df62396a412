import Mathlib.Data.Finset.Basic
import Amanuensis.Transaction.Actions

/-!
# The transaction list

`TransactionModel` lives on the GUI thread and has a row for each transaction. It listens to the
signals of a transaction, which worker threads emit: for each of them a call of `transactionUpdated`
is queued, if the model is connected when the signal is emitted. The slot announces that the row
has changed, and then disconnects the model if the state is `Error` or `ResponseComplete`. It reads
the state again for each comparison, and worker threads may change it in between.

`Window.system` is one transaction and the list: the handlers of the transaction run action by
action, and slots of this transaction and of others may run in between, one at a time, and each of
them up to its last test first and then comparison by comparison.
-/

open LabelledSystem

namespace Amanuensis

/-- What is logged: the states the transaction enters, and the signals of the model. -/
inductive Change
  | entered (state : NotificationState)
  | dataChanged (row : ℕ)
  | layoutChanged (row : ℕ)
  deriving DecidableEq, Repr

/-- The members of the model, with a transaction given by its id, and its connections. -/
structure TransactionModel where
  transactions : List ℤ := []
  tlsTransactionIds : Finset ℤ := ∅
  /-- The transactions whose signals are connected. -/
  connected : Finset ℤ := ∅

namespace TransactionModel

/-- `transactionStarted`: the transaction is listed last, and its signals are connected. -/
def transactionStarted (id : ℤ) (model : TransactionModel) : TransactionModel :=
  { model with
    transactions := model.transactions ++ [id]
    connected := insert id model.connected }

/-- How often `transactionStarted` connects a signal. -/
def connections : Signal → ℕ
  | .transactionStart => 0
  | .responseHeadersRead => 2
  | .requestRead | .responseRead | .transactionFailed | .transactionComplete => 1

/-- `std::lower_bound`, on a list in ascending order. -/
def lowerBound (ids : List ℤ) (id : ℤ) : ℕ := ids.findIdx fun item ↦ ¬ item < id

/-- The first test of `transactionUpdated`. -/
def noteTunnel (id : ℤ) (state : NotificationState) (model : TransactionModel) : TransactionModel :=
  if state = .tlsTunnel then
    { model with tlsTransactionIds := insert id model.tlsTransactionIds }
  else model

/-- The last test of `transactionUpdated`: the transaction, and the states that its state is
compared with. -/
def finalTests (id : ℤ) : List (ℤ × NotificationState) := [(id, .error), (id, .responseComplete)]

/-- `transactionUpdated` up to its last test: the model, what is announced, and the comparisons that
are left to do. The state is the one that the first test reads. -/
def transactionUpdated (id : ℤ) (state : NotificationState) (model : TransactionModel) :
    TransactionModel × List Change × List (ℤ × NotificationState) :=
  let model := model.noteTunnel id state
  let index := lowerBound model.transactions id
  match model.transactions[index]? with
  | none => (model, [], [])
  | some item =>
    if item ≠ id then (model, [], [])
    else (model, [.dataChanged index, .layoutChanged index], finalTests id)

/-- The model no longer listens to a transaction. -/
def disconnect (id : ℤ) (model : TransactionModel) : TransactionModel :=
  { model with connected := model.connected.erase id }

/-- The next comparison of the last test, with the state that it reads: the model disconnects, or
what is left is to be compared. -/
def compareNext (state : NotificationState) (tests : List (ℤ × NotificationState))
    (model : TransactionModel) : TransactionModel × List (ℤ × NotificationState) :=
  match tests with
  | [] => (model, [])
  | (id, final) :: rest => if state = final then (model.disconnect id, []) else (model, rest)

end TransactionModel

/-- A transaction and the list. -/
structure Window where
  /-- The transaction, with the handler that runs already at its end. -/
  worker : Machine
  /-- What is left of the handler that runs. -/
  actions : List Action
  /-- The state of the transaction that can be read. -/
  state : NotificationState
  /-- The signals for which a slot is queued. -/
  queue : List Signal
  model : TransactionModel
  /-- What the slot that runs has left to compare. -/
  tests : List (ℤ × NotificationState) := []
  log : List Change

namespace Window

/-- The worker thread goes on with its handler. -/
def act (id : ℤ) (w : Window) : Option Window :=
  match w.actions with
  | [] => none
  | .enter state :: rest =>
    some { w with actions := rest, state := state, log := w.log ++ [.entered state] }
  | .emit signal :: rest =>
    -- a signal is lost if the model is not connected when it is emitted
    let slots :=
      if id ∈ w.model.connected then List.replicate (TransactionModel.connections signal) signal
      else []
    some { w with actions := rest, queue := w.queue ++ slots }

/-- A call of `transactionUpdated` up to its last test, and what it announces. -/
def updated (id : ℤ) (state : NotificationState) (w : Window) : Window :=
  let (model, changes, tests) := w.model.transactionUpdated id state
  { w with model := model, tests := tests, log := w.log ++ changes }

/-- The slot that runs makes its next comparison. -/
def compared (state : NotificationState) (w : Window) : Window :=
  let (model, tests) := w.model.compareNext state w.tests
  { w with model := model, tests := tests }

/-- The GUI thread starts the next slot that is queued for the transaction. -/
def update (id : ℤ) (w : Window) : Option Window :=
  match w.queue with
  | [] => none
  | _ :: rest => if w.tests = [] then some { updated id w.state w with queue := rest } else none

/-- The GUI thread goes on with a slot of the transaction. -/
def test (id : ℤ) (w : Window) : Option Window :=
  match w.tests with
  | [] => none
  | (id', _) :: _ => if id' = id then some (compared w.state w) else none

/-- The GUI thread goes on with a slot of another transaction. -/
def testOther (id : ℤ) (state : NotificationState) (w : Window) : Option Window :=
  match w.tests with
  | [] => none
  | (id', _) :: _ => if id' = id then none else some (compared state w)

/-- What may happen next. -/
inductive Label
  /-- An operation of the transaction completes, and its handler starts. -/
  | complete (l : Transaction.Label)
  | act
  | update
  | test
  /-- Another transaction starts. -/
  | start (id : ℤ)
  /-- A slot that is queued for another transaction starts. -/
  | updateOther (id : ℤ) (state : NotificationState)
  /-- It goes on. -/
  | testOther (state : NotificationState)
  deriving DecidableEq

/-- When `on_client_connected` returns: the transaction has a row, which is the last one, and has
begun. -/
def started (id : ℤ) (model : TransactionModel) (m : Machine) : Window where
  worker := m
  actions := Transaction.actions {} m
  state := .none
  queue := []
  model := model.transactionStarted id
  log := []

/-- **A transaction and the list**. Ids are given out in ascending order. -/
def system (id : ℤ) : LabelledSystem Window Label where
  init w := ∃ model m, model.transactions.Pairwise (· < ·) ∧
    (∀ i ∈ model.transactions, i < id) ∧ Transaction.system.init m ∧ w = started id model m
  step w l w' :=
    match l with
    | .complete l => w.actions = [] ∧ ∃ m', Transaction.system.step w.worker l m' ∧
        w' = { w with worker := m', actions := Transaction.actions w.worker m' }
    | .act => w.act id = some w'
    | .update => w.update id = some w'
    | .test => w.test id = some w'
    | .start id' => (w.tests = [] ∧ ∀ i ∈ w.model.transactions, i < id') ∧
        w' = { w with model := w.model.transactionStarted id' }
    | .updateOther id' state => (w.tests = [] ∧ id' ≠ id) ∧ w' = updated id' state w
    | .testOther state => w.testOther id state = some w'

end Window

namespace Window

variable {id : ℤ} {w w' : Window}

/-- What the worker thread does next. -/
theorem act_cases (h : w.act id = some w') :
    (∃ state rest, w.actions = .enter state :: rest ∧
      w' = { w with actions := rest, state := state, log := w.log ++ [.entered state] }) ∨
    ∃ signal rest, w.actions = .emit signal :: rest ∧
      w' = { w with
        actions := rest
        queue := w.queue ++ if id ∈ w.model.connected then
          List.replicate (TransactionModel.connections signal) signal else [] } := by
  rw [act] at h
  split at h
  next => exact nomatch h
  next state rest heq => exact .inl ⟨state, rest, heq, (Option.some.inj h).symm⟩
  next signal rest heq => exact .inr ⟨signal, rest, heq, (Option.some.inj h).symm⟩

/-- What the GUI thread does when it starts a slot. -/
theorem update_cases (h : w.update id = some w') :
    ∃ signal rest, w.queue = signal :: rest ∧
      w' = { updated id w.state w with queue := rest } := by
  rw [update] at h
  split at h
  next => exact nomatch h
  next signal rest heq =>
    split_ifs at h
    exact ⟨signal, rest, heq, (Option.some.inj h).symm⟩

theorem compared_eq {state final : NotificationState} {id' : ℤ}
    {rest : List (ℤ × NotificationState)} (htests : w.tests = (id', final) :: rest) :
    compared state w =
      if state = final then { w with model := w.model.disconnect id', tests := [] }
      else { w with tests := rest } := by
  simp only [compared, TransactionModel.compareNext, htests]
  split_ifs <;> rfl

/-- What the GUI thread does when it goes on with a slot of the transaction. -/
theorem test_cases (h : w.test id = some w') :
    ∃ final rest, w.tests = (id, final) :: rest ∧
      ((w.state = final ∧ w' = { w with model := w.model.disconnect id, tests := [] }) ∨
        w.state ≠ final ∧ w' = { w with tests := rest }) := by
  rw [test] at h
  split at h
  next => exact nomatch h
  next id' final rest htests =>
    split_ifs at h with hid
    subst hid
    refine ⟨final, rest, htests, ?_⟩
    rw [← Option.some.inj h, compared_eq htests]
    split_ifs with hfinal
    · exact .inl ⟨hfinal, rfl⟩
    · exact .inr ⟨hfinal, rfl⟩

/-- What the GUI thread does when it goes on with a slot of another transaction. -/
theorem testOther_cases {state : NotificationState} (h : w.testOther id state = some w') :
    ∃ id' final rest, w.tests = (id', final) :: rest ∧ id' ≠ id ∧
      (w' = { w with model := w.model.disconnect id', tests := [] } ∨
        w' = { w with tests := rest }) := by
  rw [testOther] at h
  split at h
  next => exact nomatch h
  next id' final rest htests =>
    split_ifs at h with hid
    refine ⟨id', final, rest, htests, hid, ?_⟩
    rw [← Option.some.inj h, compared_eq htests]
    split_ifs
    · exact .inl rfl
    · exact .inr rfl

end Window

/-! ### Rows -/

namespace TransactionModel

variable {ids : List ℤ} {id : ℤ} {model : TransactionModel} {state : NotificationState}

/-- A transaction is found in its row. -/
theorem getElem?_lowerBound (hsorted : ids.Pairwise (· < ·)) (hid : id ∈ ids) :
    ids[lowerBound ids id]? = some id := by
  induction ids with
  | nil => exact nomatch hid
  | cons item ids ih =>
    obtain ⟨hlt, hsorted⟩ := List.pairwise_cons.1 hsorted
    obtain rfl | hid := List.mem_cons.1 hid
    · simp [lowerBound, List.findIdx_cons]
    · have hitem : item < id := hlt id hid
      have hnext : lowerBound (item :: ids) id = lowerBound ids id + 1 := by
        simp [lowerBound, List.findIdx_cons, hitem.not_ge]
      rw [hnext, List.getElem?_cons_succ]
      exact ih hsorted hid

@[simp]
theorem noteTunnel_transactions :
    (model.noteTunnel id state).transactions = model.transactions := by
  rw [noteTunnel]
  split <;> rfl

@[simp]
theorem noteTunnel_connected : (model.noteTunnel id state).connected = model.connected := by
  rw [noteTunnel]
  split <;> rfl

@[simp]
theorem disconnect_transactions : (model.disconnect id).transactions = model.transactions := rfl

/-- Comparisons change no row. -/
theorem compareNext_transactions {tests : List (ℤ × NotificationState)} :
    (model.compareNext state tests).1.transactions = model.transactions := by
  unfold compareNext
  split
  · rfl
  · split_ifs <;> rfl

/-- Other transactions stay connected. -/
theorem mem_disconnect_connected {id' : ℤ} (hne : id' ≠ id) :
    id' ∈ (model.disconnect id).connected ↔ id' ∈ model.connected := by
  simp [disconnect, hne]

/-- The model listens no longer. -/
theorem not_mem_disconnect_connected : id ∉ (model.disconnect id).connected := by
  simp [disconnect]

/-- What is compared in the last test of a slot. -/
theorem isFinal_of_suffix {tests : List (ℤ × NotificationState)} (htests : tests <:+ finalTests id)
    {p : ℤ × NotificationState} (hp : p ∈ tests) : p.1 = id ∧ Transaction.IsFinal p.2 := by
  have hmem : p = (id, .error) ∨ p = (id, .responseComplete) := by
    simpa [finalTests] using htests.subset hp
  obtain rfl | rfl := hmem
  · exact ⟨rfl, .inl rfl⟩
  · exact ⟨rfl, .inr rfl⟩

/-- **A slot for a transaction in the list** announces its row. -/
theorem transactionUpdated_of_mem (state : NotificationState)
    (hsorted : model.transactions.Pairwise (· < ·)) (hid : id ∈ model.transactions) :
    ∃ row, model.transactions[row]? = some id ∧
      model.transactionUpdated id state =
        (model.noteTunnel id state, [.dataChanged row, .layoutChanged row], finalTests id) := by
  have hfind := getElem?_lowerBound hsorted hid
  refine ⟨_, hfind, ?_⟩
  rw [transactionUpdated]
  simp [hfind]

/-- A slot announces the row of its transaction, or nothing. -/
theorem transactionUpdated_cases (id : ℤ) (state : NotificationState) (model : TransactionModel) :
    model.transactionUpdated id state = (model.noteTunnel id state, [], []) ∨
      ∃ row, model.transactions[row]? = some id ∧
        model.transactionUpdated id state =
          (model.noteTunnel id state, [.dataChanged row, .layoutChanged row], finalTests id) := by
  rw [transactionUpdated]
  simp only [noteTunnel_transactions]
  split
  · exact .inl rfl
  · next item hitem =>
    split
    · exact .inl rfl
    · next hne =>
      obtain rfl : item = id := not_not.1 hne
      exact .inr ⟨_, hitem, rfl⟩

@[simp]
theorem transactionUpdated_transactions :
    (model.transactionUpdated id state).1.transactions = model.transactions := by
  obtain h | ⟨row, -, h⟩ := transactionUpdated_cases id state model
  all_goals simp [h]

/-- Up to its last test a slot leaves all connections. -/
@[simp]
theorem transactionUpdated_connected :
    (model.transactionUpdated id state).1.connected = model.connected := by
  obtain h | ⟨row, -, h⟩ := transactionUpdated_cases id state model
  all_goals simp [h]

/-- What is left to compare concerns the transaction of the slot. -/
theorem transactionUpdated_tests : (model.transactionUpdated id state).2.2 <:+ finalTests id := by
  obtain h | ⟨row, -, h⟩ := transactionUpdated_cases id state model
  · rw [h]
    exact List.nil_suffix
  · rw [h]

/-- A slot announces rows, and enters no state. -/
theorem entered_not_mem_transactionUpdated (s : NotificationState) :
    .entered s ∉ (model.transactionUpdated id state).2.1 := by
  obtain h | ⟨row, -, h⟩ := transactionUpdated_cases id state model
  all_goals simp [h]

end TransactionModel

end Amanuensis
