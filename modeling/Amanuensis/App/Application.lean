import Amanuensis.App.TransactionModel
import Amanuensis.Core.Server

/-!
# The application

The server, the proxy that starts a transaction for each client, any number of transactions, and the
list that shows them. Connections are made by worker threads, and `client_connected` is queued to
the GUI thread, where the server, the proxy and the list live; so are the slots for the signals of
the transactions. The GUI thread runs what is queued in order, once the window has been constructed,
and a slot of the list comparison by comparison, as in `Window.system`.

Handlers of different transactions run side by side, action by action, as in `Window.system`.
-/

open LabelledSystem

namespace Amanuensis

/-- What is queued to the GUI thread. -/
inductive Posted
  | clientConnected
  /-- A slot for a signal of a transaction. -/
  | transactionUpdated (id : ℤ) (s : Signal)
  deriving DecidableEq, Repr

/-- What the GUI thread is doing. -/
inductive GuiStage
  | constructing
  | running
  | closed
  deriving DecidableEq, Repr

/-- A transaction, with the handler that runs. -/
structure Activity where
  id : ℤ
  /-- The transaction, with the handler that runs already at its end. -/
  machine : Machine
  /-- What is left of the handler that runs. -/
  actions : List Action
  /-- The state of the transaction that can be read. -/
  state : NotificationState
  /-- How much had been logged when it started. -/
  since : ℕ

/-- What is logged. -/
inductive Entry
  /-- A transaction enters a state. -/
  | entered (id : ℤ) (state : NotificationState)
  | announced (c : Change)
  deriving DecidableEq, Repr

/-- The application: the server and its connections, the transactions with what is left of their
handlers, the list, and the GUI thread with its queue. -/
structure Application where
  server : Server := .constructed
  /-- `next_id_`. -/
  nextId : Int32 := 1
  stage : GuiStage := .constructing
  posted : List Posted := []
  activities : List Activity := []
  model : TransactionModel := {}
  /-- What the slot of the list that runs has left to compare. -/
  tests : List (ℤ × NotificationState) := []
  log : List Entry := []

namespace Application

/-! ### The GUI thread -/

/-- `on_client_connected`, with the connection of the client. -/
def onClientConnected (a : Application) : Option Application :=
  match Transaction.begin {} with
  | .ok m =>
    let id := a.nextId.toInt
    some
      { a with
        nextId := a.nextId + 1
        model := a.model.transactionStarted id
        activities := a.activities ++
          [{ id := id, machine := m, actions := Transaction.actions {} m, state := .none,
             since := a.log.length }] }
  | .error _ => none

/-- The state of a transaction. -/
def stateOf (id : ℤ) (a : Application) : NotificationState :=
  match a.activities.find? fun activity ↦ activity.id = id with
  | some activity => activity.state
  | none => .none

/-- A slot of the list, up to its last test. -/
def onTransactionUpdated (id : ℤ) (a : Application) : Application :=
  let (model, changes, tests) := a.model.transactionUpdated id (a.stateOf id)
  { a with model := model, tests := tests, log := a.log ++ changes.map .announced }

/-- The GUI thread goes on with a slot of the list. -/
def test (a : Application) : Option Application :=
  match a.tests with
  | [] => none
  | (id, _) :: _ =>
    let (model, tests) := a.model.compareNext (a.stateOf id) a.tests
    some { a with model := model, tests := tests }

/-- The GUI thread runs what is next. -/
def dispatch (a : Application) : Option Application :=
  match a.posted with
  | [] => none
  | .clientConnected :: rest => onClientConnected { a with posted := rest }
  | .transactionUpdated id _ :: rest => some (onTransactionUpdated id { a with posted := rest })

/-! ### Worker threads -/

/-- A worker thread completes an operation on the acceptor. -/
def serve (l : Server.Label) (a : Application) : Option Application :=
  (a.server.next l).map fun server ↦
    { a with
      server := server
      posted := a.posted ++
        List.replicate (server.connections - a.server.connections) .clientConnected }

/-- A worker thread completes an operation of a transaction, whose handler starts. -/
def complete (k : ℕ) (l : Transaction.Label) (a : Application) : Option Application :=
  match a.activities[k]? with
  | none => none
  | some activity =>
    if activity.actions = [] then
      (Transaction.next activity.machine l).map fun m ↦
        { a with
          activities := a.activities.set k
            { activity with machine := m, actions := Transaction.actions activity.machine m } }
    else none

/-- A worker thread goes on with a handler. -/
def act (k : ℕ) (a : Application) : Option Application :=
  match a.activities[k]? with
  | none => none
  | some activity =>
    match activity.actions with
    | [] => none
    | .enter state :: rest =>
      some
        { a with
          activities := a.activities.set k { activity with actions := rest, state := state }
          log := a.log ++ [.entered activity.id state] }
    | .emit signal :: rest =>
      let slots :=
        if activity.id ∈ a.model.connected then
          List.replicate (TransactionModel.connections signal)
            (.transactionUpdated activity.id signal)
        else []
      some
        { a with
          activities := a.activities.set k { activity with actions := rest }
          posted := a.posted ++ slots }

/-! ### The system -/

/-- What may happen next. -/
inductive Label
  | serve (l : Server.Label)
  /-- The window has been constructed, `init` has been called, and the event loop runs. -/
  | run
  /-- The window is destroyed, and `deinit` is called. -/
  | close
  | dispatch
  | test
  | complete (k : ℕ) (l : Transaction.Label)
  | act (k : ℕ)
  deriving DecidableEq

/-- The step of a label, if it is possible. -/
def next (a : Application) : Label → Option Application
  | .serve l => a.serve l
  | .run => if a.stage = .constructing then some { a with stage := .running } else none
  | .close =>
    if a.stage = .running ∧ a.tests = [] then some { a with stage := .closed } else none
  | .dispatch => if a.stage = .running ∧ a.tests = [] then a.dispatch else none
  | .test => a.test
  | .complete k l => a.complete k l
  | .act k => a.act k

/-- **The application**, from the start of its server on. -/
def system : LabelledSystem Application Label where
  init a := a = {}
  step a l a' := a.next l = some a'

/-! ### What a step does -/

variable {a a' : Application} {l : Label} {h : List (Move Application Label)}

/-- **A step**, case by case. -/
inductive Does (a : Application) : Label → Application → Prop
  | serve (l : Server.Label) (server : Server) (hnext : a.server.next l = some server) :
    Does a (.serve l)
      { a with
        server := server
        posted := a.posted ++
          List.replicate (server.connections - a.server.connections) .clientConnected }
  | run (hstage : a.stage = .constructing) : Does a .run { a with stage := .running }
  | close (hstage : a.stage = .running) (htests : a.tests = []) :
    Does a .close { a with stage := .closed }
  | connected (rest : List Posted) (hposted : a.posted = .clientConnected :: rest)
    (hstage : a.stage = .running) (htests : a.tests = []) :
    Does a .dispatch
      { a with
        nextId := a.nextId + 1
        posted := rest
        activities := a.activities ++
          [{ id := a.nextId.toInt, machine := Transaction.begun
             actions := Transaction.actions {} Transaction.begun, state := .none
             since := a.log.length }]
        model := a.model.transactionStarted a.nextId.toInt }
  | updated (id : ℤ) (s : Signal) (rest : List Posted)
    (hposted : a.posted = .transactionUpdated id s :: rest) (hstage : a.stage = .running)
    (htests : a.tests = []) :
    Does a .dispatch
      { a with
        posted := rest
        model := (a.model.transactionUpdated id (a.stateOf id)).1
        tests := (a.model.transactionUpdated id (a.stateOf id)).2.2
        log := a.log ++ (a.model.transactionUpdated id (a.stateOf id)).2.1.map .announced }
  | test (id : ℤ) (final : NotificationState) (rest : List (ℤ × NotificationState))
    (htests : a.tests = (id, final) :: rest) :
    Does a .test
      { a with
        model := (a.model.compareNext (a.stateOf id) a.tests).1
        tests := (a.model.compareNext (a.stateOf id) a.tests).2 }
  | complete (k : ℕ) (l : Transaction.Label) (activity : Activity) (m : Machine)
    (hget : a.activities[k]? = some activity) (hactions : activity.actions = [])
    (hstep : Transaction.system.step activity.machine l m) :
    Does a (.complete k l)
      { a with
        activities := a.activities.set k
          { activity with machine := m, actions := Transaction.actions activity.machine m } }
  | enter (k : ℕ) (activity : Activity) (state : NotificationState) (rest : List Action)
    (hget : a.activities[k]? = some activity) (hactions : activity.actions = .enter state :: rest) :
    Does a (.act k)
      { a with
        activities := a.activities.set k { activity with actions := rest, state := state }
        log := a.log ++ [.entered activity.id state] }
  | emit (k : ℕ) (activity : Activity) (signal : Signal) (rest : List Action)
    (hget : a.activities[k]? = some activity) (hactions : activity.actions = .emit signal :: rest) :
    Does a (.act k)
      { a with
        activities := a.activities.set k { activity with actions := rest }
        posted := a.posted ++
          if activity.id ∈ a.model.connected then
            List.replicate (TransactionModel.connections signal)
              (.transactionUpdated activity.id signal)
          else [] }

theorem does_of_dispatch (hstage : a.stage = .running) (htests : a.tests = [])
    (hnext : a.dispatch = some a') : Does a .dispatch a' := by
  rw [dispatch] at hnext
  split at hnext
  next => exact absurd hnext (by simp)
  next rest hposted =>
    obtain rfl := Option.some.inj hnext
    exact .connected rest hposted hstage htests
  next id s rest hposted =>
    obtain rfl := Option.some.inj hnext
    exact .updated id s rest hposted hstage htests

theorem does_of_test (hnext : a.test = some a') : Does a .test a' := by
  rw [test] at hnext
  split at hnext
  next => exact absurd hnext (by simp)
  next id final rest htests =>
    obtain rfl := Option.some.inj hnext
    exact .test id final rest htests

theorem does_of_complete {k : ℕ} {l : Transaction.Label} (hnext : a.complete k l = some a') :
    Does a (.complete k l) a' := by
  rw [complete] at hnext
  split at hnext
  next => exact absurd hnext (by simp)
  next activity hget =>
    split_ifs at hnext with hactions
    obtain ⟨m, hm, rfl⟩ := Option.map_eq_some_iff.1 hnext
    exact .complete k l activity m hget hactions (Transaction.step_of_next hm)

theorem does_of_act {k : ℕ} (hnext : a.act k = some a') : Does a (.act k) a' := by
  rw [act] at hnext
  split at hnext
  next => exact absurd hnext (by simp)
  next activity hget =>
    split at hnext
    next => exact absurd hnext (by simp)
    next state rest hactions =>
      obtain rfl := Option.some.inj hnext
      exact .enter k activity state rest hget hactions
    next signal rest hactions =>
      obtain rfl := Option.some.inj hnext
      exact .emit k activity signal rest hget hactions

/-- A step does one of these. -/
theorem does_of_step (hstep : system.step a l a') : Does a l a' := by
  replace hstep : a.next l = some a' := hstep
  cases l with
  | serve l =>
    obtain ⟨server, hserver, rfl⟩ := Option.map_eq_some_iff.1 hstep
    exact .serve l server hserver
  | run =>
    rw [next] at hstep
    split_ifs at hstep with hstage
    obtain rfl := Option.some.inj hstep
    exact .run hstage
  | close =>
    rw [next] at hstep
    split_ifs at hstep with hgui
    obtain rfl := Option.some.inj hstep
    exact .close hgui.1 hgui.2
  | dispatch =>
    rw [next] at hstep
    split_ifs at hstep with hgui
    exact does_of_dispatch hgui.1 hgui.2 hstep
  | test => exact does_of_test hstep
  | complete k l => exact does_of_complete hstep
  | act k => exact does_of_act hstep

end Application

end Amanuensis
