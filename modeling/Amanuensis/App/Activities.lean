import Amanuensis.App.Clients
import Amanuensis.App.MissedStates
import Amanuensis.Foundation.Projection

/-!
# A transaction of the application

What an application shows of one of its transactions and of the list is a window
(`Application.view`), and a run of the application shows a run of that window (`projects`): the
other transactions do to it what `Window.system` says that others may do. So what holds in all runs
of a window holds of every transaction of the application; when its last state is shown in the end
(`showsLast_iff`) is one such thing.
-/

open LabelledSystem

namespace Amanuensis

namespace Application

variable {a a' : Application} {l : Label} {h : List (Move Application Label)}
  {t : Move Application Label} {k : ℕ} {id : ℤ} {activity : Activity}

/-! ### What is shown of a transaction -/

/-- The slots queued for a transaction. -/
def queueOf (id : ℤ) (posted : List Posted) : List Signal :=
  posted.filterMap fun p ↦
    match p with
    | .transactionUpdated id' s => if id' = id then some s else none
    | .clientConnected => none

/-- The changes that concern a transaction. -/
def changesOf (id : ℤ) (log : List Entry) : List Change :=
  log.filterMap fun e ↦
    match e with
    | .entered id' state => if id' = id then some (.entered state) else none
    | .announced c => some c

/-- A transaction and the list. -/
def windowOf (a : Application) (activity : Activity) : Window where
  worker := activity.machine
  actions := activity.actions
  state := activity.state
  queue := queueOf activity.id a.posted
  model := a.model
  tests := a.tests
  log := changesOf activity.id (a.log.drop activity.since)

/-- What is shown of the transaction that is started after `k` others. -/
def view (k : ℕ) (a : Application) : Option Window := a.activities[k]?.map a.windowOf

/-- What a step is for that transaction. -/
def labelOf (k : ℕ) (t : Move Application Label) : Option Window.Label :=
  match t.label with
  | .serve _ | .run | .close => none
  | .dispatch =>
    match t.source.posted with
    | [] => none
    | .clientConnected :: _ => some (.start t.source.nextId.toInt)
    | .transactionUpdated id _ :: _ =>
      some (if id = (k : ℤ) + 1 then .update else .updateOther id (t.source.stateOf id))
  | .test =>
    match t.source.tests with
    | [] => none
    | (id, _) :: _ =>
      some (if id = (k : ℤ) + 1 then .test else .testOther (t.source.stateOf id))
  | .complete k' l => if k' = k then some (.complete l) else none
  | .act k' => if k' = k then some .act else none

/-! ### Queues and logs -/

theorem queueOf_append (id : ℤ) (xs ys : List Posted) :
    queueOf id (xs ++ ys) = queueOf id xs ++ queueOf id ys :=
  List.filterMap_append

theorem queueOf_replicate_clientConnected (id : ℤ) (n : ℕ) :
    queueOf id (List.replicate n .clientConnected) = [] := by
  simp [queueOf]

theorem queueOf_replicate_self (id : ℤ) (n : ℕ) (s : Signal) :
    queueOf id (List.replicate n (.transactionUpdated id s)) = List.replicate n s := by
  simp [queueOf]

theorem queueOf_replicate_of_ne {id' : ℤ} (hne : id' ≠ id) (n : ℕ) (s : Signal) :
    queueOf id (List.replicate n (.transactionUpdated id' s)) = [] := by
  simp [queueOf, hne]

/-- Slots are queued for one transaction. -/
theorem queueOf_eq_nil {posted : List Posted}
    (hnone : ∀ id' s, .transactionUpdated id' s ∈ posted → id' ≠ id) : queueOf id posted = [] := by
  refine List.filterMap_eq_nil_iff.2 fun p hp ↦ ?_
  cases p with
  | clientConnected => rfl
  | transactionUpdated id' s => exact if_neg (hnone id' s hp)

theorem changesOf_append (id : ℤ) (xs ys : List Entry) :
    changesOf id (xs ++ ys) = changesOf id xs ++ changesOf id ys :=
  List.filterMap_append

theorem changesOf_announced (id : ℤ) (changes : List Change) :
    changesOf id (changes.map .announced) = changes := by
  rw [changesOf, List.filterMap_map]
  exact List.filterMap_some

/-- What is logged later comes later. -/
theorem changesOf_drop_append {log : List Entry} {since : ℕ} (hsince : since ≤ log.length)
    (id : ℤ) (entries : List Entry) :
    changesOf id ((log ++ entries).drop since) =
      changesOf id (log.drop since) ++ changesOf id entries := by
  rw [List.drop_append_of_le_length hsince, changesOf_append]

/-! ### The invariant -/

/-- Transactions are numbered, the log has grown since they started, and the list announces no
state. -/
structure Recorded (a : Application) : Prop where
  numbered : Numbered a
  since : ∀ activity ∈ a.activities, activity.since ≤ a.log.length
  log : ∀ state, .announced (.entered state) ∉ a.log

theorem since_of_run (hrun : system.Run h a) :
    ∀ activity ∈ a.activities, activity.since ≤ a.log.length := by
  refine hrun.invariant (I := fun a ↦ ∀ activity ∈ a.activities,
    activity.since ≤ a.log.length) (fun a ha ↦ ?_) fun a l a' hsince hstep ↦ ?_
  · obtain rfl : a = {} := ha
    exact List.forall_mem_nil _
  · have hset {k : ℕ} {activity activity' : Activity} (hget : a.activities[k]? = some activity)
        (hsame : activity'.since = activity.since) {n : ℕ} (hn : a.log.length ≤ n) :
        ∀ u ∈ a.activities.set k activity', u.since ≤ n := by
      intro u hu
      obtain hu | rfl := List.mem_or_eq_of_mem_set hu
      · exact (hsince u hu).trans hn
      · rw [hsame]
        exact (hsince activity (List.mem_of_getElem? hget)).trans hn
    cases does_of_step hstep with
    | serve | run | close | test => exact hsince
    | connected =>
      refine List.forall_mem_append.2 ⟨hsince, List.forall_mem_singleton.2 le_rfl⟩
    | updated =>
      exact fun u hu ↦ (hsince u hu).trans (List.length_append ▸ Nat.le_add_right _ _)
    | complete k l activity m hget | emit k activity signal rest hget =>
      refine hset hget ?_ le_rfl
      rfl
    | enter k activity state rest hget =>
      refine hset hget ?_ (List.length_append ▸ Nat.le_add_right _ _)
      rfl

theorem log_of_run (hrun : system.Run h a) : ∀ state, .announced (.entered state) ∉ a.log := by
  refine hrun.invariant (I := fun a ↦ ∀ state, .announced (.entered state) ∉ a.log)
    (fun a ha ↦ ?_) fun a l a' hlog hstep ↦ ?_
  · obtain rfl : a = {} := ha
    exact fun _ ↦ List.not_mem_nil
  · cases does_of_step hstep with
    | serve | run | close | connected | test | complete | emit => exact hlog
    | enter => exact fun state ↦ List.not_mem_append (hlog state) (by simp)
    | updated id =>
      refine fun state ↦ List.not_mem_append (hlog state) ?_
      obtain hnone | ⟨row, -, hsome⟩ :=
        TransactionModel.transactionUpdated_cases id (a.stateOf id) a.model
      · simp [hnone]
      · simp [hsome]

theorem recorded_of_run (hrun : system.Run h a) : Recorded a :=
  ⟨numbered_of_run hrun, since_of_run hrun, log_of_run hrun⟩

/-- There are fewer transactions than ids. -/
def Few (a : Application) : Prop := a.activities.length < 2 ^ 31

/-- The state of a transaction is found under its id. -/
theorem stateOf_eq (hnumbered : Numbered a) (hfew : Few a)
    (hget : a.activities[k]? = some activity) : a.stateOf activity.id = activity.state := by
  have hfind : (a.activities.find? fun other ↦ other.id = activity.id) = some activity := by
    obtain ⟨hk, hactivity⟩ := List.getElem?_eq_some_iff.1 hget
    refine List.find?_eq_some_iff_getElem.2 ⟨by simp, k, hk, hactivity, fun j hj ↦ ?_⟩
    have hj' : j < a.activities.length := hj.trans hk
    have hother : a.activities[j]? = some a.activities[j] := List.getElem?_eq_getElem hj'
    have hids : a.activities[j].id ≠ activity.id := by
      rw [hnumbered.id_eq hfew hother, hnumbered.id_eq hfew hget]
      omega
    simpa using hids
  rw [stateOf, hfind]

/-! ### A step, as one transaction sees it -/

/-- What a step is for a transaction that has started: nothing, or a step of its window. -/
def Shows (k : ℕ) (w : Window) (l : Label) (a a' : Application) : Prop :=
  ∃ w', view k a' = some w' ∧ (Window.system ((k : ℤ) + 1)).Moves w (labelOf k ⟨a, l, a'⟩) w'

theorem view_eq (hget : a.activities[k]? = some activity) :
    view k a = some (a.windowOf activity) := by
  rw [view, hget]
  rfl

/-- The activity of another transaction. -/
theorem getElem?_set_of_ne {k' : ℕ} {activity' : Activity} (hne : k' ≠ k)
    (hget : a.activities[k]? = some activity) :
    (a.activities.set k' activity')[k]? = some activity :=
  (List.getElem?_set_ne hne).trans hget

theorem getElem?_set_self' {activity' : Activity} (hget : a.activities[k]? = some activity) :
    (a.activities.set k activity')[k]? = some activity' :=
  List.getElem?_set_self (List.getElem?_eq_some_iff.1 hget).1

/-- An operation on the acceptor. -/
theorem shows_serve {l : Server.Label} {server : Server}
    (hget : a.activities[k]? = some activity) (n : ℕ) :
    Shows k (a.windowOf activity) (.serve l) a
      { a with server := server, posted := a.posted ++ List.replicate n .clientConnected } := by
  refine ⟨_, view_eq hget, ?_⟩
  show windowOf _ activity = _
  simp only [windowOf, queueOf_append, queueOf_replicate_clientConnected, List.append_nil]

/-- Another transaction starts. -/
theorem shows_connected (hrecorded : Recorded a) (hfew : a.activities.length + 1 < 2 ^ 31)
    (hget : a.activities[k]? = some activity) {rest : List Posted}
    (hposted : a.posted = .clientConnected :: rest) (htests : a.tests = [])
    {activity' : Activity} {nextId : Int32} :
    Shows k (a.windowOf activity) .dispatch a
      { a with
        nextId := nextId
        posted := rest
        activities := a.activities ++ [activity']
        model := a.model.transactionStarted a.nextId.toInt } := by
  have hk := (List.getElem?_eq_some_iff.1 hget).1
  have hnew : (a.activities ++ [activity'])[k]? = some activity :=
    (List.getElem?_append_left hk).trans hget
  refine ⟨_, view_eq hnew, ?_⟩
  rw [labelOf]
  simp only [hposted]
  refine ⟨⟨htests, fun i hi ↦ ?_⟩, ?_⟩
  · have hi : i ∈ a.model.transactions := hi
    rw [hrecorded.numbered.rows, hrecorded.numbered.ids] at hi
    obtain ⟨j, hj, rfl⟩ := List.mem_map.1 hi
    have hj := List.mem_range.1 hj
    have hnext : a.nextId.toInt = idAt a.activities.length := by
      rw [hrecorded.numbered.nextId, idAt]
    rw [hnext, idAt_eq (by omega), idAt_eq (by omega)]
    omega
  · have hqueue : queueOf activity.id a.posted = queueOf activity.id rest := by
      rw [hposted]
      rfl
    simp only [windowOf, hqueue]

/-- A slot starts. -/
theorem shows_updated (hrecorded : Recorded a) (hfew : Few a)
    (hget : a.activities[k]? = some activity) {s : Signal} {rest : List Posted}
    (hposted : a.posted = .transactionUpdated id s :: rest) (htests : a.tests = []) :
    Shows k (a.windowOf activity) .dispatch a
      { a with
        posted := rest
        model := (a.model.transactionUpdated id (a.stateOf id)).1
        tests := (a.model.transactionUpdated id (a.stateOf id)).2.2
        log := a.log ++ (a.model.transactionUpdated id (a.stateOf id)).2.1.map .announced } := by
  have hid := hrecorded.numbered.id_eq hfew hget
  have hsince := hrecorded.since activity (List.mem_of_getElem? hget)
  refine ⟨_, view_eq hget, ?_⟩
  rw [labelOf]
  simp only [hposted]
  have hlog := changesOf_drop_append hsince activity.id
    ((a.model.transactionUpdated id (a.stateOf id)).2.1.map .announced)
  rw [changesOf_announced] at hlog
  split_ifs with heq
  · -- the slot is for this transaction, whose state it reads
    obtain rfl : id = activity.id := heq.trans hid.symm
    have hqueue : queueOf activity.id a.posted = s :: queueOf activity.id rest := by
      rw [hposted, queueOf, List.filterMap_cons_some]
      · rfl
      · exact if_pos rfl
    have hstate := stateOf_eq hrecorded.numbered hfew hget
    show Window.update ((k : ℤ) + 1) _ = _
    rw [← hid]
    rw [hstate] at hlog
    simp only [Window.update, windowOf, hqueue, htests, if_true, hlog, Window.updated, hstate]
  · have hqueue : queueOf activity.id a.posted = queueOf activity.id rest := by
      rw [hposted, queueOf, List.filterMap_cons_none]
      · rfl
      · exact if_neg fun h ↦ heq (h.trans hid)
    refine ⟨⟨htests, heq⟩, ?_⟩
    simp only [windowOf, hqueue, hlog, Window.updated]

/-- A slot goes on. -/
theorem shows_test (hrecorded : Recorded a) (hfew : Few a)
    (hget : a.activities[k]? = some activity) {final : NotificationState}
    {rest : List (ℤ × NotificationState)} (htests : a.tests = (id, final) :: rest) :
    Shows k (a.windowOf activity) .test a
      { a with
        model := (a.model.compareNext (a.stateOf id) a.tests).1
        tests := (a.model.compareNext (a.stateOf id) a.tests).2 } := by
  have hid := hrecorded.numbered.id_eq hfew hget
  refine ⟨_, view_eq hget, ?_⟩
  rw [labelOf]
  simp only [htests]
  split_ifs with heq
  · -- the slot is for this transaction, whose state it reads again
    obtain rfl : id = activity.id := heq.trans hid.symm
    have hstate := stateOf_eq hrecorded.numbered hfew hget
    show Window.test ((k : ℤ) + 1) _ = _
    simp only [Window.test, windowOf, htests, if_pos heq, Window.compared, hstate]
  · show Window.testOther ((k : ℤ) + 1) _ _ = _
    simp only [Window.testOther, windowOf, htests, if_neg heq, Window.compared]

/-- A handler starts. -/
theorem shows_complete (hget : a.activities[k]? = some activity) {k' : ℕ}
    {tl : Transaction.Label} {activity' : Activity} {m : Machine}
    (hget' : a.activities[k']? = some activity') (hactions : activity'.actions = [])
    (hstep : Transaction.system.step activity'.machine tl m) :
    Shows k (a.windowOf activity) (.complete k' tl) a
      { a with
        activities := a.activities.set k'
          { activity' with
            machine := m, actions := Transaction.actions activity'.machine m } } := by
  obtain rfl | hne := eq_or_ne k' k
  · obtain rfl : activity' = activity := Option.some.inj (hget'.symm.trans hget)
    refine ⟨_, view_eq (getElem?_set_self' hget), ?_⟩
    rw [labelOf]
    simp only [if_true]
    exact ⟨hactions, m, hstep, rfl⟩
  · refine ⟨_, view_eq (getElem?_set_of_ne hne hget), ?_⟩
    rw [labelOf]
    simp only [if_neg hne]
    rfl

/-- A handler enters a state. -/
theorem shows_enter (hrecorded : Recorded a) (hfew : Few a)
    (hget : a.activities[k]? = some activity) {k' : ℕ} {activity' : Activity}
    {state : NotificationState} {rest : List Action} (hget' : a.activities[k']? = some activity')
    (hactions : activity'.actions = .enter state :: rest) :
    Shows k (a.windowOf activity) (.act k') a
      { a with
        activities := a.activities.set k' { activity' with actions := rest, state := state }
        log := a.log ++ [.entered activity'.id state] } := by
  have hid := hrecorded.numbered.id_eq hfew hget
  have hlog := changesOf_drop_append (hrecorded.since activity (List.mem_of_getElem? hget))
    activity.id [.entered activity'.id state]
  obtain rfl | hne := eq_or_ne k' k
  · obtain rfl : activity' = activity := Option.some.inj (hget'.symm.trans hget)
    have hnew : changesOf activity'.id [.entered activity'.id state] = [.entered state] := by
      simp [changesOf]
    refine ⟨_, view_eq (getElem?_set_self' hget), ?_⟩
    rw [labelOf]
    simp only [if_true]
    show Window.act _ _ = some _
    simp only [Window.act, windowOf, hactions, hlog, hnew]
  · have hother : activity'.id ≠ activity.id := by
      rw [hrecorded.numbered.id_eq hfew hget', hid]
      omega
    have hnew : changesOf activity.id [.entered activity'.id state] = [] := by
      simp [changesOf, hother]
    rw [hnew, List.append_nil] at hlog
    refine ⟨_, view_eq (getElem?_set_of_ne hne hget), ?_⟩
    rw [labelOf]
    simp only [if_neg hne]
    show windowOf _ activity = _
    simp only [windowOf, hlog]

/-- A handler emits a signal. -/
theorem shows_emit (hrecorded : Recorded a) (hfew : Few a)
    (hget : a.activities[k]? = some activity) {k' : ℕ} {activity' : Activity}
    {signal : Signal} {rest : List Action} (hget' : a.activities[k']? = some activity')
    (hactions : activity'.actions = .emit signal :: rest) :
    Shows k (a.windowOf activity) (.act k') a
      { a with
        activities := a.activities.set k' { activity' with actions := rest }
        posted := a.posted ++
          if activity'.id ∈ a.model.connected then
            List.replicate (TransactionModel.connections signal)
              (.transactionUpdated activity'.id signal)
          else [] } := by
  have hid := hrecorded.numbered.id_eq hfew hget
  obtain rfl | hne := eq_or_ne k' k
  · obtain rfl : activity' = activity := Option.some.inj (hget'.symm.trans hget)
    refine ⟨_, view_eq (getElem?_set_self' hget), ?_⟩
    rw [labelOf]
    simp only [if_true]
    show Window.act ((k' : ℤ) + 1) _ = some _
    rw [← hid]
    simp only [Window.act, windowOf, hactions, queueOf_append]
    split_ifs
    · rw [queueOf_replicate_self]
    · rfl
  · have hother : activity'.id ≠ activity.id := by
      rw [hrecorded.numbered.id_eq hfew hget', hid]
      omega
    refine ⟨_, view_eq (getElem?_set_of_ne hne hget), ?_⟩
    rw [labelOf]
    simp only [if_neg hne]
    show windowOf _ activity = _
    simp only [windowOf, queueOf_append]
    split_ifs
    · rw [queueOf_replicate_of_ne hother, List.append_nil]
    · have hnil : queueOf activity.id [] = [] := rfl
      rw [hnil, List.append_nil]

/-- **Every step is one that the window of a transaction allows for.** -/
theorem shows_of_does (hrecorded : Recorded a) (hdoes : Does a l a') (hfew : Few a')
    (hget : a.activities[k]? = some activity) : Shows k (a.windowOf activity) l a a' := by
  have hfew₀ : Few a := (length_le_of_does hdoes).trans_lt hfew
  cases hdoes with
  | serve => exact shows_serve hget _
  | run | close => exact ⟨_, view_eq hget, rfl⟩
  | connected rest hposted hstage htests =>
    rw [Few, List.length_append, List.length_singleton] at hfew
    exact shows_connected hrecorded hfew hget hposted htests
  | updated id s rest hposted hstage htests =>
    exact shows_updated hrecorded hfew₀ hget hposted htests
  | test id final rest htests => exact shows_test hrecorded hfew₀ hget htests
  | complete k' tl activity' m hget' hactions hstep =>
    exact shows_complete hget hget' hactions hstep
  | enter k' activity' state rest hget' hactions =>
    exact shows_enter hrecorded hfew₀ hget hget' hactions
  | emit k' activity' signal rest hget' hactions =>
    exact shows_emit hrecorded hfew₀ hget hget' hactions

/-- **A transaction starts** in a window in which its row is the last one. -/
theorem init_of_does (hrecorded : Recorded a) (hdoes : Does a l a') (hfew : Few a')
    (hnone : view k a = none) {w : Window} (hw : view k a' = some w) :
    (Window.system ((k : ℤ) + 1)).init w := by
  have hk : a.activities.length ≤ k := by
    rw [view, Option.map_eq_none_iff] at hnone
    exact List.getElem?_eq_none_iff.1 hnone
  have hsame (hlength : a'.activities.length = a.activities.length) : False := by
    rw [view, List.getElem?_eq_none (hlength ▸ hk)] at hw
    exact absurd hw (by simp)
  cases hdoes with
  | serve | run | close | updated | test => exact (hsame rfl).elim
  | complete | enter | emit => exact (hsame List.length_set).elim
  | connected rest hposted hstage htests =>
    obtain ⟨activity, hget, rfl⟩ := Option.map_eq_some_iff.1 hw
    have hfew : a.activities.length + 1 < 2 ^ 31 := by
      rwa [Few, List.length_append, List.length_singleton] at hfew
    obtain rfl : k = a.activities.length := by
      have := (List.getElem?_eq_some_iff.1 hget).1
      rw [List.length_append, List.length_singleton] at this
      omega
    replace hget := Option.some.inj (List.getElem?_concat_length.symm.trans hget)
    have hid : a.nextId.toInt = (a.activities.length : ℤ) + 1 := by
      rw [hrecorded.numbered.nextId]
      exact idAt_eq hfew
    have hbelow : ∀ i ∈ a.activities.map Activity.id, i < (a.activities.length : ℤ) + 1 := by
      rw [hrecorded.numbered.ids]
      refine List.forall_mem_map.2 fun j hj ↦ ?_
      have hj := List.mem_range.1 hj
      rw [idAt_eq (by omega)]
      omega
    refine ⟨a.model, Transaction.begun,
      hrecorded.numbered.pairwise (Nat.lt_of_succ_lt hfew), ?_, Transaction.init_iff.2 rfl, ?_⟩
    · rw [hrecorded.numbered.rows]
      exact hbelow
    · -- nothing is queued for the new id
      have hqueue : queueOf ((a.activities.length : ℤ) + 1) rest = [] := by
        refine queueOf_eq_nil fun id' s hmem ↦ (hbelow id' ?_).ne
        exact hrecorded.numbered.posted id' s (hposted ▸ List.mem_cons_of_mem _ hmem)
      rw [← hget]
      simp only [windowOf, hid, hqueue, htests, List.drop_length]
      rfl

/-- **An application contains the window of each of its transactions.** -/
theorem projects (k : ℕ) :
    Projects system (Window.system ((k : ℤ) + 1)) (fun t ↦ Few t.target) Recorded (view k)
      (labelOf k) where
  start a ha := by
    obtain rfl : a = {} := ha
    exact fun w hw ↦ absurd hw (by simp [view])
  appear a l a' hrecorded hstep hfew hnone w hw :=
    init_of_does hrecorded (does_of_step hstep) hfew hnone hw
  go a l a' w hrecorded hstep hfew hw := by
    obtain ⟨activity, hget, rfl⟩ := Option.map_eq_some_iff.1 hw
    exact shows_of_does hrecorded (does_of_step hstep) hfew hget

/-- The moves of the application that concern a transaction. -/
def historyOf (k : ℕ) (h : List (Move Application Label)) : List (Move Window Window.Label) :=
  project (view k) (labelOf k) h

/-- **Each transaction of an application runs as if it were the one of a window**, whatever the
others do. -/
theorem window_run (hrun : system.Run h a) (hfew : Few a) {w : Window} (hw : view k a = some w) :
    (Window.system ((k : ℤ) + 1)).Run (historyOf k h) w :=
  (projects k).run (fun _ _ hrun _ ↦ recorded_of_run hrun) hrun
    (fun _ ht ↦ (length_le_of_run hrun ht).trans_lt hfew) hw

/-- The second of two clients disconnects, and the first one waits. -/
def secondDisconnects : List Label :=
  [.serve (.accept {}), .serve (.accept {}), .run, .dispatch, .dispatch, .act 0, .act 1,
    .complete 1 ⟨.readClientRequest, { ec := .eof }⟩] ++ List.replicate 3 (.act 1) ++
    [.dispatch, .test, .dispatch, .test]

theorem secondDisconnects_window_run :
    ∃ h a w, system.Run h a ∧ (Window.system 2).Run (historyOf 1 h) w ∧
      (historyOf 1 h).length = 9 ∧ h.length = 15 := by
  obtain ⟨h, a, hrun, hlength, hview, htest⟩ := exists_run_of_follow secondDisconnects
    (fun h a ↦ a.activities.length = 2 ∧ (view 1 a).isSome ∧ (historyOf 1 h).length = 9 ∧
      h.length = 15)
    (by decide +kernel)
  obtain ⟨w, hw⟩ := Option.isSome_iff_exists.1 hview
  refine ⟨h, a, w, hrun, window_run hrun ?_ hw, htest⟩
  rw [Few, hlength]
  decide

/-! ### Final states -/

/-- A move that is one of a transaction is in its history. -/
theorem exists_mem_historyOf (hrun : system.Run h a) (hfew : Few a) (ht : t ∈ h)
    (hget : t.source.activities[k]? = some activity) {l : Window.Label}
    (hl : labelOf k t = some l) :
    ∃ w, ⟨t.source.windowOf activity, l, w⟩ ∈ historyOf k h := by
  obtain ⟨h₁, -, hbefore, hstep⟩ := hrun.exists_of_mem ht
  obtain ⟨w, hw, -⟩ := shows_of_does (recorded_of_run hbefore) (does_of_step hstep)
    ((length_le_of_run hrun ht).trans_lt hfew) hget
  exact ⟨w, mem_project_iff.2 ⟨t, ht, view_eq hget, hl, hw⟩⟩

/-- The transaction enters `Error`, the list is not connected and no slot is queued. -/
def FailsUnseen (k : ℕ) (t : Move Application Label) : Prop :=
  t.label = .act k ∧ ∃ activity, t.source.activities[k]? = some activity ∧
    activity.actions.head? = some (.enter .error) ∧
    activity.id ∉ t.source.model.connected ∧ queueOf activity.id t.source.posted = []

/-- A slot of the transaction disconnects the list when the transaction has entered a state since
its row was announced, and no other slot is queued. -/
def DisconnectsUnseen (k : ℕ) (t : Move Application Label) : Prop :=
  t.label = .test ∧ ∃ activity, t.source.activities[k]? = some activity ∧
    t.source.tests.head? = some (activity.id, activity.state) ∧
    (∃ state, (changesOf activity.id (t.source.log.drop activity.since)).getLast? =
      some (.entered state)) ∧
    queueOf activity.id t.source.posted = []

/-- An operation of the transaction completes with an effect. -/
def Has (k : ℕ) (effect : Transaction.Effect) (t : Move Application Label) : Prop :=
  ∃ l activity, t.label = .complete k l ∧ t.source.activities[k]? = some activity ∧
    Transaction.effectOf activity.machine l = effect

/-- No failure of the transaction goes unseen, none of its slots gives up unseen, and its tunnel
does not end in silence. -/
structure EndsSeen (k : ℕ) (h : List (Move Application Label)) : Prop where
  failure : ∀ t ∈ h, ¬ FailsUnseen k t
  disconnection : ∀ t ∈ h, ¬ DisconnectsUnseen k t
  closing : (∃ t ∈ h, Has k .release t) → ∃ t ∈ h, ∃ ec, Has k (.fail ec) t

/-- Nothing is pending, and nothing is queued. -/
structure Quiescent (a : Application) : Prop where
  activities : ∀ activity ∈ a.activities, activity.machine.pending = [] ∧ activity.actions = []
  posted : a.posted = []

/-- In all moves of a run the transaction has its number. -/
theorem id_eq_of_mem (hrun : system.Run h a) (hfew : Few a) (ht : t ∈ h)
    (hget : t.source.activities[k]? = some activity) : activity.id = (k : ℤ) + 1 := by
  obtain ⟨h₁, -, hbefore, hstep⟩ := hrun.exists_of_mem ht
  exact (numbered_of_run hbefore).id_eq ((length_le_of_does (does_of_step hstep)).trans_lt
    ((length_le_of_run hrun ht).trans_lt hfew)) hget

theorem exists_failsUnseen_iff (hrun : system.Run h a) (hfew : Few a) :
    (∃ u ∈ historyOf k h, Window.FailsUnseen ((k : ℤ) + 1) u) ↔ ∃ t ∈ h, FailsUnseen k t := by
  constructor
  · rintro ⟨u, hu, hlabel, hactions, hconnected, hqueue⟩
    obtain ⟨t, ht, hsource, hl, -⟩ := mem_project_iff.1 hu
    obtain ⟨activity, hget, heq⟩ := Option.map_eq_some_iff.1 hsource
    rw [← heq] at hactions hconnected hqueue
    refine ⟨t, ht, ?_, activity, hget, hactions, ?_, hqueue⟩
    · rw [hlabel, labelOf] at hl
      grind
    · rwa [id_eq_of_mem hrun hfew ht hget]
  · rintro ⟨t, ht, hlabel, activity, hget, hactions, hconnected, hqueue⟩
    have hl : labelOf k t = some .act := by
      rw [labelOf, hlabel]
      exact if_pos rfl
    obtain ⟨w, hw⟩ := exists_mem_historyOf hrun hfew ht hget hl
    exact ⟨_, hw, rfl, hactions, id_eq_of_mem hrun hfew ht hget ▸ hconnected, hqueue⟩

theorem exists_disconnectsUnseen_iff (hrun : system.Run h a) (hfew : Few a) :
    (∃ u ∈ historyOf k h, Window.DisconnectsUnseen ((k : ℤ) + 1) u) ↔
      ∃ t ∈ h, DisconnectsUnseen k t := by
  constructor
  · rintro ⟨u, hu, ⟨hlabel, htests⟩, hlast, hqueue⟩
    obtain ⟨t, ht, hsource, hl, -⟩ := mem_project_iff.1 hu
    obtain ⟨activity, hget, heq⟩ := Option.map_eq_some_iff.1 hsource
    rw [← heq] at htests hlast hqueue
    rw [← id_eq_of_mem hrun hfew ht hget] at htests
    refine ⟨t, ht, ?_, activity, hget, htests, hlast, hqueue⟩
    rw [hlabel, labelOf] at hl
    grind
  · rintro ⟨t, ht, hlabel, activity, hget, htests, hlast, hqueue⟩
    have hid := id_eq_of_mem hrun hfew ht hget
    obtain ⟨rest, hrest⟩ := List.head?_eq_some_iff.1 htests
    have hl : labelOf k t = some .test := by
      rw [labelOf, hlabel]
      simp only [hrest, if_pos hid]
    obtain ⟨w, hw⟩ := exists_mem_historyOf hrun hfew ht hget hl
    exact ⟨_, hw, ⟨rfl, hid ▸ htests⟩, hlast, hqueue⟩

theorem exists_effect_iff (hrun : system.Run h a) (hfew : Few a) (effect : Transaction.Effect) :
    (∃ u ∈ historyOf k h, ∃ l, u.label = .complete l ∧
        Transaction.effectOf u.source.worker l = effect) ↔ ∃ t ∈ h, Has k effect t := by
  constructor
  · rintro ⟨u, hu, l, hlabel, heffect⟩
    obtain ⟨t, ht, hsource, hl, -⟩ := mem_project_iff.1 hu
    obtain ⟨activity, hget, heq⟩ := Option.map_eq_some_iff.1 hsource
    rw [← heq] at heffect
    refine ⟨t, ht, l, activity, ?_, hget, heffect⟩
    rw [hlabel, labelOf] at hl
    grind
  · rintro ⟨t, ht, l, activity, hlabel, hget, heffect⟩
    have hl : labelOf k t = some (.complete l) := by
      rw [labelOf, hlabel]
      exact if_pos rfl
    obtain ⟨w, hw⟩ := exists_mem_historyOf hrun hfew ht hget hl
    exact ⟨_, hw, l, rfl, heffect⟩

theorem endsSeen_historyOf_iff (hrun : system.Run h a) (hfew : Few a) :
    Window.EndsSeen ((k : ℤ) + 1) (historyOf k h) ↔ EndsSeen k h := by
  have hfailure := exists_failsUnseen_iff (k := k) hrun hfew
  have hdisconnects := exists_disconnectsUnseen_iff (k := k) hrun hfew
  have hcloses := exists_effect_iff (k := k) hrun hfew .release
  have hfails : (∃ u ∈ historyOf k h, Window.Fails u) ↔ ∃ t ∈ h, ∃ ec, Has k (.fail ec) t := by
    constructor
    · rintro ⟨u, hu, l, ec, hlabel, heffect⟩
      obtain ⟨t, ht, hhas⟩ := (exists_effect_iff hrun hfew (.fail ec)).1 ⟨u, hu, l, hlabel, heffect⟩
      exact ⟨t, ht, ec, hhas⟩
    · rintro ⟨t, ht, ec, hhas⟩
      obtain ⟨u, hu, l, hlabel, heffect⟩ := (exists_effect_iff hrun hfew (.fail ec)).2 ⟨t, ht, hhas⟩
      exact ⟨u, hu, l, ec, hlabel, heffect⟩
  constructor
  · intro hends
    refine ⟨fun t ht hunseen ↦ ?_, fun t ht hunseen ↦ ?_,
      fun hrelease ↦ hfails.1 (hends.closing (hcloses.2 hrelease))⟩
    · obtain ⟨u, hu, hunseen⟩ := hfailure.2 ⟨t, ht, hunseen⟩
      exact hends.failure u hu hunseen
    · obtain ⟨u, hu, hunseen⟩ := hdisconnects.2 ⟨t, ht, hunseen⟩
      exact hends.disconnection u hu hunseen
  · intro hends
    refine ⟨fun u hu hunseen ↦ ?_, fun u hu hunseen ↦ ?_,
      fun hrelease ↦ hfails.2 (hends.closing (hcloses.1 hrelease))⟩
    · obtain ⟨t, ht, hunseen⟩ := hfailure.1 ⟨u, hu, hunseen⟩
      exact hends.failure t ht hunseen
    · obtain ⟨t, ht, hunseen⟩ := hdisconnects.1 ⟨u, hu, hunseen⟩
      exact hends.disconnection t ht hunseen

/-- **The last state is on display**: the row of the transaction is announced after it has entered a
state for the last time. -/
def ShowsLast (a : Application) (activity : Activity) : Prop :=
  ∃ before row after,
    a.log.drop activity.since = before ++ .announced (.dataChanged row) :: after ∧
      a.model.transactions[row]? = some activity.id ∧ ∀ state, .entered activity.id state ∉ after

/-- What the window of a transaction shows is what the application shows. -/
theorem showsFinal_windowOf_iff (hlog : ∀ state, .announced (.entered state) ∉ a.log) :
    Window.ShowsFinal activity.id (a.windowOf activity) ↔ a.ShowsLast activity := by
  constructor
  · rintro ⟨before, row, after, heq, hrow, hafter⟩
    obtain ⟨xs, ys, hsplit, -, hys⟩ := List.filterMap_eq_append_iff.1 heq
    obtain ⟨zs, e, rest, rfl, hzs, he, hrest⟩ := List.filterMap_eq_cons_iff.1 hys
    have hentry : e = .announced (.dataChanged row) := by
      cases e with
      | entered id' state => grind
      | announced c => exact congrArg _ (Option.some.inj he)
    refine ⟨xs ++ zs, row, rest, ?_, hrow, fun state hmem ↦ hafter state ?_⟩
    · rw [hsplit, hentry, List.append_assoc]
    · rw [← hrest]
      exact List.mem_filterMap.2 ⟨_, hmem, if_pos rfl⟩
  · rintro ⟨before, row, after, heq, hrow, hafter⟩
    refine ⟨changesOf activity.id before, row, changesOf activity.id after, ?_, hrow,
      fun state hmem ↦ ?_⟩
    · show changesOf activity.id (a.log.drop activity.since) = _
      rw [heq, changesOf_append]
      rfl
    · obtain ⟨e, he, hentered⟩ := List.mem_filterMap.1 hmem
      cases e with
      | entered id' state' =>
        replace hentered :
          (if id' = activity.id then some (Change.entered state') else none) =
            some (.entered state) := hentered
        split_ifs at hentered with hid
        exact hafter state' (hid ▸ he)
      | announced c =>
        obtain rfl := Option.some.inj hentered
        refine hlog state (List.mem_of_mem_drop (i := activity.since) ?_)
        rw [heq]
        exact List.mem_append_right _ (List.mem_cons_of_mem _ he)

/-- **When the last state of a transaction is on display**, once nothing is left to do: exactly if
no failure of it goes unseen, none of its slots gives up unseen and its tunnel does not end in
silence. -/
theorem showsLast_iff (hrun : system.Run h a) (hfew : Few a) (hquiet : Quiescent a)
    (hget : a.activities[k]? = some activity) : a.ShowsLast activity ↔ EndsSeen k h := by
  have hrecorded := recorded_of_run hrun
  have hwindow := window_run hrun hfew (view_eq hget)
  have hid := hrecorded.numbered.id_eq hfew hget
  obtain ⟨hpending, hactions⟩ := hquiet.activities activity (List.mem_of_getElem? hget)
  have hrest : Window.Quiescent (a.windowOf activity) := by
    refine ⟨hpending, hactions, ?_⟩
    show queueOf activity.id a.posted = []
    rw [hquiet.posted]
    rfl
  rw [← showsFinal_windowOf_iff hrecorded.log, ← endsSeen_historyOf_iff hrun hfew, hid]
  refine ⟨fun hshows ↦ ⟨fun t ht hunseen ↦ ?_, fun t ht hunseen ↦ ?_, fun hcloses ↦ ?_⟩,
    Window.showsFinal_of_endsSeen hwindow hrest⟩
  · exact Window.not_showsFinal_of_unseen hwindow ⟨t, ht, .inl hunseen⟩ hshows
  · exact Window.not_showsFinal_of_unseen hwindow ⟨t, ht, .inr hunseen⟩ hshows
  · by_contra hfails
    have hnone : ∀ t ∈ historyOf k h, ¬ Window.Fails t := fun t ht hfail ↦ hfails ⟨t, ht, hfail⟩
    exact Window.not_showsFinal_of_silent hwindow hrest ⟨hcloses, hnone⟩ hshows

/-- The other client disconnects as well, and what is queued runs. -/
theorem bothDisconnect_showsLast :
    ∃ h a activity, system.Run h a ∧ a.activities[1]? = some activity ∧ a.ShowsLast activity ∧
      EndsSeen 1 h := by
  obtain ⟨h, a, hrun, ⟨hlength, hposted, hall⟩, hlog⟩ := exists_run_of_follow
    (secondDisconnects ++ .complete 0 ⟨.readClientRequest, { ec := .eof }⟩ ::
      List.replicate 3 (.act 0) ++ [.dispatch, .test, .dispatch, .test])
    (fun _ a ↦ (a.activities.length = 2 ∧ a.posted = [] ∧ ∀ activity ∈ a.activities,
        activity.machine.pending = [] ∧ activity.actions = []) ∧
      a.activities[1]?.any fun activity ↦
        activity.id = 2 ∧ a.model.transactions[1]? = some 2 ∧
          a.log.drop activity.since =
            [.entered 2 .error] ++ .announced (.dataChanged 1) ::
              [.announced (.layoutChanged 1), .announced (.dataChanged 1),
                .announced (.layoutChanged 1), .entered 1 .error, .announced (.dataChanged 0),
                .announced (.layoutChanged 0), .announced (.dataChanged 0),
                .announced (.layoutChanged 0)])
    (by decide +kernel)
  obtain ⟨activity, hget, htest⟩ := (Option.any_eq_true _ _).1 hlog
  obtain ⟨hid, hrow, hlog⟩ := of_decide_eq_true htest
  have hfew : Few a := by
    rw [Few, hlength]
    decide
  have hshows : a.ShowsLast activity :=
    ⟨_, 1, _, hlog, hid ▸ hrow, by rw [hid]; simp⟩
  exact ⟨h, a, activity, hrun, hget, hshows,
    (showsLast_iff hrun hfew ⟨hall, hposted⟩ hget).1 hshows⟩

end Application

end Amanuensis
