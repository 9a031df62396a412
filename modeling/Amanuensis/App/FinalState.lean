import Amanuensis.App.TransactionModel

/-!
# The last state shown

The list shows the last state of a transaction if its row is announced after that state has been
entered. Once nothing is pending and no slot is queued, it does so (`showsFinal_of_endsSeen`) if

* no failure goes unseen: the transaction enters `Error` while the model is connected or a slot is
  still queued;
* no slot gives up unseen: where it disconnects the model, no state has been entered since it
  announced the row, or another slot is still queued; and
* no tunnel ends in silence: if a read that brings nothing closes it, then some operation fails.

A failure goes unseen when the response cannot be written: `ResponseComplete` is taken for the last
state, and the model is disconnected by the slot that reads it. A slot gives up unseen when the
response is complete only after the row has been announced, and before the state is compared.
-/

open LabelledSystem

namespace Amanuensis

namespace Window

open Transaction (IsFinal Calm EndsEmitting arrive Control effectOf)

variable {id : ℤ} {w w' : Window} {l : Label} {h : List (Move Window Label)}

/-- Nothing is pending, and nothing is queued. -/
structure Quiescent (w : Window) : Prop where
  pending : w.worker.pending = []
  actions : w.actions = []
  queue : w.queue = []

/-- **The last state is shown**: the row of the transaction is announced after a state has been
entered for the last time. -/
def ShowsFinal (id : ℤ) (w : Window) : Prop :=
  ∃ before row after, w.log = before ++ .dataChanged row :: after ∧
    w.model.transactions[row]? = some id ∧ ∀ state, .entered state ∉ after

/-! ### What goes unseen -/

/-- The transaction enters `Error`, the model is not connected and no slot is queued. -/
def FailsUnseen (id : ℤ) (t : Move Window Label) : Prop :=
  t.label = .act ∧ t.source.actions.head? = some (.enter .error) ∧
    id ∉ t.source.model.connected ∧ t.source.queue = []

/-- The slot of the transaction that runs disconnects the model. -/
def Disconnects (id : ℤ) (t : Move Window Label) : Prop :=
  t.label = .test ∧ t.source.tests.head? = some (id, t.source.state)

/-- A slot disconnects the model when the transaction has entered a state since the row was
announced, and no other slot is queued. -/
def DisconnectsUnseen (id : ℤ) (t : Move Window Label) : Prop :=
  Disconnects id t ∧ (∃ state, t.source.log.getLast? = some (.entered state)) ∧
    t.source.queue = []

/-- A read that brings nothing closes the tunnel. -/
def Closes (t : Move Window Label) : Prop :=
  ∃ l, t.label = .complete l ∧ effectOf t.source.worker l = .release

/-- An operation fails the transaction. -/
def Fails (t : Move Window Label) : Prop :=
  ∃ l ec, t.label = .complete l ∧ effectOf t.source.worker l = .fail ec

/-- No failure goes unseen, no slot gives up unseen, and no tunnel ends in silence. -/
structure EndsSeen (id : ℤ) (h : List (Move Window Label)) : Prop where
  failure : ∀ t ∈ h, ¬ FailsUnseen id t
  disconnection : ∀ t ∈ h, ¬ DisconnectsUnseen id t
  closing : (∃ t ∈ h, Closes t) → ∃ t ∈ h, Fails t

section

variable {t : Move Window Label} {tl : Transaction.Label} {P : Move Window Label → Prop}

theorem closes_iff (hlabel : t.label = .complete tl) :
    Closes t ↔ effectOf t.source.worker tl = .release := by
  constructor
  · rintro ⟨l, hl, he⟩
    obtain rfl := Label.complete.inj (hlabel.symm.trans hl)
    exact he
  · exact fun he ↦ ⟨tl, hlabel, he⟩

theorem fails_iff (hlabel : t.label = .complete tl) :
    Fails t ↔ ∃ ec, effectOf t.source.worker tl = .fail ec := by
  constructor
  · rintro ⟨l, ec, hl, he⟩
    obtain rfl := Label.complete.inj (hlabel.symm.trans hl)
    exact ⟨ec, he⟩
  · exact fun ⟨ec, he⟩ ↦ ⟨tl, ec, hlabel, he⟩

/-- A handler with another effect closes nothing. -/
theorem not_closes_of_effect {e : Transaction.Effect} (hlabel : t.label = .complete tl)
    (he : effectOf t.source.worker tl = e) (hne : e ≠ .release) : ¬ Closes t := fun hcloses ↦
  hne (he.symm.trans ((closes_iff hlabel).1 hcloses))

/-- A handler with another effect does not fail. -/
theorem not_fails_of_effect {e : Transaction.Effect} (hlabel : t.label = .complete tl)
    (he : effectOf t.source.worker tl = e) (hne : ∀ ec, e ≠ .fail ec) : ¬ Fails t := by
  intro hfails
  obtain ⟨ec, hfail⟩ := (fails_iff hlabel).1 hfails
  exact hne ec (he.symm.trans hfail)

/-- Outside the handlers nothing is closed and nothing fails. -/
theorem not_closes_and_not_fails (ht : ∀ l, t.label ≠ .complete l) : ¬ Closes t ∧ ¬ Fails t :=
  ⟨fun ⟨l, hl, _⟩ ↦ ht l hl, fun ⟨l, _, hl, _⟩ ↦ ht l hl⟩

/-- What no move has been before, nor is the last one. -/
theorem forall_not_concat (hh : ∀ u ∈ h, ¬ P u) (hP : ¬ P t) : ∀ u ∈ h ++ [t], ¬ P u :=
  List.forall_mem_append.2 ⟨hh, List.forall_mem_singleton.2 hP⟩

/-- What some move has been before. -/
theorem exists_concat (hh : ∃ u ∈ h, P u) : ∃ u ∈ h ++ [t], P u :=
  hh.imp fun _ hu ↦ ⟨List.mem_append_left _ hu.1, hu.2⟩

end

/-! ### The transaction -/

/-- How far a transaction is, after moves. -/
inductive Phase (h : List (Move Window Label)) (m : Machine) : Prop
  | working (hclient : m.tx.client ≠ none) (hcloses : ∀ t ∈ h, ¬ Closes t)
      (hfails : ∀ t ∈ h, ¬ Fails t)
  | failed (hclient : m.tx.client = none) (hstate : m.tx.notificationState = .error)
      (hfails : ∃ t ∈ h, Fails t)
  | finished (hclient : m.tx.client = none) (hpending : m.pending = [])
      (hstate : m.tx.notificationState = .responseComplete) (hcloses : ∀ t ∈ h, ¬ Closes t)
      (hfails : ∀ t ∈ h, ¬ Fails t)
  | closed (hclient : m.tx.client = none) (hstate : ¬ IsFinal m.tx.notificationState)
      (hcloses : ∃ t ∈ h, Closes t) (hfails : ∀ t ∈ h, ¬ Fails t)

/-- Outside the handlers the phase stays. -/
theorem Phase.concat {m : Machine} {t : Move Window Label} (hphase : Phase h m)
    (ht : ∀ l, t.label ≠ .complete l) : Phase (h ++ [t]) m := by
  obtain ⟨hcloses, hfails⟩ := not_closes_and_not_fails ht
  obtain ⟨hc, hc', hf⟩ | ⟨hc, hs, hf⟩ | ⟨hc, hp, hs, hc', hf⟩ | ⟨hc, hs, hc', hf⟩ := hphase
  · exact .working hc (forall_not_concat hc' hcloses) (forall_not_concat hf hfails)
  · exact .failed hc hs (exists_concat hf)
  · exact .finished hc hp hs (forall_not_concat hc' hcloses) (forall_not_concat hf hfails)
  · exact .closed hc hs (exists_concat hc') (forall_not_concat hf hfails)

/-- In a tunnel that is open, the response has not been read. -/
theorem not_isFinal_of_direction {m : Machine} {op : Operation} (hm : Control m)
    (hop : op ∈ m.pending) (hd : op.direction ≠ none) (hclient : m.tx.client ≠ none) :
    ¬ IsFinal m.tx.notificationState := by
  obtain ⟨d, hd⟩ := Option.ne_none_iff_exists'.1 hd
  obtain ⟨-, -, -, -, -, hs⟩ | ⟨-, hc, -⟩ := hm.stage.handling hop hd
  · replace hs : m.tx.notificationState.code ≤ 5 := hs
    rintro (hfinal | hfinal)
    all_goals exact absurd (hfinal ▸ hs) (by decide)
  · exact absurd hc hclient

/-- **One operation.** -/
theorem Phase.step {m m' : Machine} {tl : Transaction.Label} {t : Move Window Label}
    (hphase : Phase h m) (hm : Control m) (hs : m.tx.notificationState ≠ .tlsTunnel)
    (hstep : Transaction.system.step m tl m') (hlabel : t.label = .complete tl)
    (hsource : t.source.worker = m) : Phase (h ++ [t]) m' := by
  subst hsource
  -- outside the tunnel the client is connected
  have hdirection (hc : t.source.worker.tx.client = none) : tl.operation.direction ≠ none := by
    intro hd
    have hclient := (hm.stage.expected hstep.1 hd).2.1
    exact nomatch hc.symm.trans hclient
  cases he : effectOf t.source.worker tl with
  | fail ec =>
    obtain ⟨notes, -, happlied⟩ := hm.applied hstep he
    have hfails : Fails t := (fails_iff hlabel).2 ⟨ec, he⟩
    exact .failed happlied.client happlied.state ⟨t, List.mem_concat_self, hfails⟩
  | finish =>
    obtain ⟨notes, -, happlied⟩ := hm.applied hstep he
    have hcloses := not_closes_of_effect hlabel he nofun
    have hfails := not_fails_of_effect hlabel he fun _ ↦ nofun
    obtain ⟨bytes, hop, -⟩ := Transaction.effectOf_eq_finish he
    obtain ⟨-, hclient, hexpected⟩ := hm.stage.expected hstep.1 (by rw [hop]; rfl)
    have hstate : t.source.worker.tx.notificationState = .responseComplete := by
      rw [hop] at hexpected
      exact hexpected.2
    have hpending : m'.pending = [] := by
      rw [hm.pending hstep (by rw [hop]; rfl), he]
      rfl
    obtain ⟨-, hc', hf⟩ | ⟨hc, -⟩ | ⟨hc, -⟩ | ⟨hc, -⟩ := hphase
    · exact .finished happlied.client hpending (happlied.state.trans hstate)
        (forall_not_concat hc' hcloses) (forall_not_concat hf hfails)
    all_goals exact nomatch hc.symm.trans hclient
  | release =>
    obtain ⟨notes, -, happlied⟩ := hm.applied hstep he
    have hcloses : ∃ u ∈ h ++ [t], Closes u := ⟨t, List.mem_concat_self, (closes_iff hlabel).2 he⟩
    have hfails := not_fails_of_effect hlabel he fun _ ↦ nofun
    have hstate : m'.tx.notificationState = t.source.worker.tx.notificationState := happlied.state
    obtain ⟨hc, -, hf⟩ | ⟨hc, hs', hf⟩ | ⟨-, hp, -⟩ | ⟨hc, hs', -, hf⟩ := hphase
    · obtain ⟨d, hop, -⟩ := Transaction.effectOf_eq_release he
      have hopen := not_isFinal_of_direction hm hstep.1 (by rw [hop]; exact nofun) hc
      exact .closed happlied.client (hstate ▸ hopen) hcloses (forall_not_concat hf hfails)
    · exact .failed happlied.client (hstate.trans hs') (exists_concat hf)
    · exact absurd (hp ▸ hstep.1) List.not_mem_nil
    · exact .closed happlied.client (hstate ▸ hs') hcloses (forall_not_concat hf hfails)
  | proceed ops =>
    obtain ⟨notes, -, happlied⟩ := hm.applied hstep he
    have hcloses := not_closes_of_effect hlabel he nofun
    have hfails := not_fails_of_effect hlabel he fun _ ↦ nofun
    have hclient : m'.tx.client = t.source.worker.tx.client := happlied.client
    obtain ⟨hc, hc', hf⟩ | ⟨hc, hs', hf⟩ | ⟨-, hp, -⟩ | ⟨hc, hs', hc', hf⟩ := hphase
    · exact .working (hclient ▸ hc) (forall_not_concat hc' hcloses) (forall_not_concat hf hfails)
    · exact .failed (hclient.trans hc) (happlied.state.2 hs') (exists_concat hf)
    · exact absurd (hp ▸ hstep.1) List.not_mem_nil
    · -- what goes on in a tunnel that is closed notes nothing
      have hstate := Transaction.state_of_step_tunnel hm hs hstep (hdirection hc) he rfl
      exact .closed (hclient.trans hc) (hstate ▸ hs') (exists_concat hc')
        (forall_not_concat hf hfails)

/-- The end of the transaction is still to come: the client is connected, or a tunnel has been
closed in silence. -/
def Ongoing (h : List (Move Window Label)) (m : Machine) : Prop :=
  m.tx.client ≠ none ∨ (∃ t ∈ h, Closes t) ∧ ∀ t ∈ h, ¬ Fails t

theorem Ongoing.concat {m : Machine} {t : Move Window Label} (hongoing : Ongoing h m)
    (ht : ∀ l, t.label ≠ .complete l) : Ongoing (h ++ [t]) m :=
  hongoing.imp_right fun hh ↦
    ⟨exists_concat hh.1, forall_not_concat hh.2 (not_closes_and_not_fails ht).2⟩

/-- What a handler is about to do: it enters no state, or a signal follows, or the end is still to
come. -/
def Announces (h : List (Move Window Label)) (w : Window) : Prop :=
  (∀ state, .enter state ∉ w.actions) ∨ EndsEmitting w.actions ∨ Ongoing h w.worker

theorem Announces.concat {t : Move Window Label} (hw : Announces h w)
    (ht : ∀ l, t.label ≠ .complete l) : Announces (h ++ [t]) w :=
  hw.imp_right fun hw ↦ hw.imp_right fun hw ↦ hw.concat ht

/-- What is announced is announced later on in the handler. -/
theorem Announces.tail {a : Action} {rest : List Action} (hw : Announces h w)
    (hactions : w.actions = a :: rest) (hrest : w'.actions = rest)
    (hworker : w'.worker = w.worker) : Announces h w' := by
  rw [Announces, hactions] at hw
  rw [Announces, hrest, hworker]
  obtain hnone | hends | hongoing := hw
  · exact .inl fun state hmem ↦ hnone state (List.mem_cons_of_mem _ hmem)
  · cases a with
    | enter state => exact .inr (.inl hends.of_enter)
    | emit signal =>
      obtain hends | ⟨-, hnone⟩ := hends.of_emit
      · exact .inr (.inl hends)
      · exact .inl hnone
  · exact .inr (.inr hongoing)

/-- A slot of the transaction runs. -/
def Slotted (id : ℤ) (w : Window) : Prop := ∃ p ∈ w.tests, p.1 = id

/-- The row has been announced, and nothing but states has been logged since. -/
def JustAnnounced (id : ℤ) (w : Window) : Prop :=
  ∃ before row states, w.model.transactions[row]? = some id ∧
    w.log = before ++ .dataChanged row :: .layoutChanged row :: List.map .entered states

/-- **What always holds** of a transaction and the list. -/
structure Watched (id : ℤ) (h : List (Move Window Label)) (w : Window) : Prop where
  control : Control w.worker
  phase : Phase h w.worker
  ne_tlsTunnel : w.worker.tx.notificationState ≠ .tlsTunnel
  arrives : arrive w.state w.actions = w.worker.tx.notificationState
  calm : Calm w.state w.actions
  announces : Announces h w
  sorted : w.model.transactions.Pairwise (· < ·)
  mem : id ∈ w.model.transactions
  /-- The model is disconnected in a final state only. -/
  isFinal : id ∉ w.model.connected → IsFinal w.state
  /-- One slot runs at a time. -/
  tests : ∃ id', w.tests <:+ TransactionModel.finalTests id'
  announced : Slotted id w → JustAnnounced id w

theorem watched_started {model : TransactionModel} {m : Machine}
    (hsorted : model.transactions.Pairwise (· < ·)) (hlt : ∀ i ∈ model.transactions, i < id)
    (hm : Transaction.system.init m) : Watched id [] (started id model m) := by
  obtain rfl := Transaction.init_iff.1 hm
  exact
    { control := Transaction.control_begun
      phase := .working (Option.some_ne_none _) (List.forall_mem_nil _) (List.forall_mem_nil _)
      ne_tlsTunnel := show NotificationState.none ≠ .tlsTunnel by decide
      arrives := rfl
      calm := trivial
      announces := .inl fun state ↦ by
        show .enter state ∉ [Action.emit .transactionStart]
        simp
      sorted := List.pairwise_append.2 ⟨hsorted, by simp, by simpa using hlt⟩
      mem := by simp [started, TransactionModel.transactionStarted]
      isFinal := fun hid ↦ absurd (Finset.mem_insert_self _ _) hid
      tests := ⟨id, List.nil_suffix⟩
      announced := fun ⟨_, hp, _⟩ ↦ absurd hp List.not_mem_nil }

/-- A handler that starts announces what it does. -/
theorem announces_of_step {m m' : Machine} {tl : Transaction.Label} {t : Move Window Label}
    (hphase : Phase h m) (hm : Control m) (hs : m.tx.notificationState ≠ .tlsTunnel)
    (hstep : Transaction.system.step m tl m') (hlabel : t.label = .complete tl)
    (hsource : t.source.worker = m) {w' : Window} (hworker : w'.worker = m')
    (hactions : w'.actions = Transaction.actions m m') : Announces (h ++ [t]) w' := by
  subst hsource
  rw [Announces, hworker, hactions]
  have hpending (hp : t.source.worker.pending = []) : False :=
    List.not_mem_nil (hp ▸ hstep.1)
  -- after a failure no state is entered
  have hsame (hstate : t.source.worker.tx.notificationState = .error)
      (hstate' : m'.tx.notificationState = .error) (state : NotificationState) :
      .enter state ∉ Transaction.actions t.source.worker m' := by
    have hascends := Transaction.ascends_of_step hs hstep
    rw [hstate, hstate'] at hascends
    rw [Transaction.actions, hstate]
    exact hascends.enter_not_mem state
  cases he : effectOf t.source.worker tl with
  | finish | fail =>
    exact .inr (.inl (Transaction.endsEmitting_of_step hm hs hstep he (List.cons_ne_nil _ _)))
  | proceed ops =>
    obtain ⟨notes, -, happlied⟩ := hm.applied hstep he
    have hclient : m'.tx.client = t.source.worker.tx.client := happlied.client
    have hquiet := not_fails_of_effect hlabel he fun _ ↦ nofun
    obtain ⟨hc, -, -⟩ | ⟨-, hstate, -⟩ | ⟨-, hp, -⟩ | ⟨-, -, hcloses, hfails⟩ := hphase
    · exact .inr (.inr (.inl (hclient ▸ hc)))
    · exact .inl (hsame hstate (happlied.state.2 hstate))
    · exact (hpending hp).elim
    · exact .inr (.inr (.inr ⟨exists_concat hcloses, forall_not_concat hfails hquiet⟩))
  | release =>
    obtain ⟨notes, -, happlied⟩ := hm.applied hstep he
    have hquiet := not_fails_of_effect hlabel he fun _ ↦ nofun
    have hcloses : ∃ u ∈ h ++ [t], Closes u := ⟨t, List.mem_concat_self, tl, hlabel, he⟩
    obtain ⟨-, -, hfails⟩ | ⟨-, hstate, -⟩ | ⟨-, hp, -⟩ | ⟨-, -, -, hfails⟩ := hphase
    · exact .inr (.inr (.inr ⟨hcloses, forall_not_concat hfails hquiet⟩))
    · exact .inl (hsame hstate (happlied.state.trans hstate))
    · exact (hpending hp).elim
    · exact .inr (.inr (.inr ⟨hcloses, forall_not_concat hfails hquiet⟩))

/-! ### Slots -/

/-- The comparisons that are left are those of one slot. -/
theorem Watched.eq_of_mem (hw : Watched id h w) {p q : ℤ × NotificationState} (hp : p ∈ w.tests)
    (hq : q ∈ w.tests) : p.1 = q.1 := by
  obtain ⟨id', htests⟩ := hw.tests
  exact (TransactionModel.isFinal_of_suffix htests hp).1.trans
    (TransactionModel.isFinal_of_suffix htests hq).1.symm

theorem Watched.isFinal_of_mem (hw : Watched id h w) {p : ℤ × NotificationState}
    (hp : p ∈ w.tests) : IsFinal p.2 := by
  obtain ⟨id', htests⟩ := hw.tests
  exact (TransactionModel.isFinal_of_suffix htests hp).2

theorem Watched.tests_tail (hw : Watched id h w) {p : ℤ × NotificationState}
    {rest : List (ℤ × NotificationState)} (htests : w.tests = p :: rest) :
    ∃ id', rest <:+ TransactionModel.finalTests id' := by
  obtain ⟨id', hsuffix⟩ := hw.tests
  exact ⟨id', (List.suffix_cons p rest).trans (htests ▸ hsuffix)⟩

/-- While a slot of another transaction runs, none of this one does. -/
theorem Watched.not_slotted (hw : Watched id h w) {p : ℤ × NotificationState} (hp : p ∈ w.tests)
    (hne : p.1 ≠ id) : ¬ Slotted id w := fun ⟨_, hq, hid⟩ ↦ hne ((hw.eq_of_mem hp hq).trans hid)

/-- A slot that starts has announced the row. -/
theorem justAnnounced_updated {rest : List Signal} (hw : Watched id h w) :
    JustAnnounced id { updated id w.state w with queue := rest } := by
  obtain ⟨row, hrow, hupdated⟩ := TransactionModel.transactionUpdated_of_mem
    w.state hw.sorted hw.mem
  refine ⟨w.log, row, [], ?_, ?_⟩
  · show (w.model.transactionUpdated id w.state).1.transactions[row]? = some id
    rw [TransactionModel.transactionUpdated_transactions, hrow]
  · show w.log ++ (w.model.transactionUpdated id w.state).2.1 = _
    rw [hupdated]
    rfl

/-- A state that is entered is logged. -/
theorem JustAnnounced.enter (hw : JustAnnounced id w) {state : NotificationState}
    (hrows : w'.model = w.model) (hlog : w'.log = w.log ++ [.entered state]) :
    JustAnnounced id w' := by
  obtain ⟨before, row, states, hrow, heq⟩ := hw
  exact ⟨before, row, states ++ [state], by rw [hrows, hrow], by simp [hlog, heq]⟩

theorem JustAnnounced.frame (hw : JustAnnounced id w)
    (hrows : w'.model.transactions = w.model.transactions) (hlog : w'.log = w.log) :
    JustAnnounced id w' := by
  obtain ⟨before, row, states, hrow, heq⟩ := hw
  exact ⟨before, row, states, by rw [hrows, hrow], by rw [hlog, heq]⟩

/-- What the GUI thread does leaves the transaction. -/
theorem Watched.gui {t : Move Window Label} (hw : Watched id h w)
    (ht : ∀ l, t.label ≠ .complete l) (hworker : w'.worker = w.worker)
    (hactions : w'.actions = w.actions) (hstate : w'.state = w.state)
    (sorted : w'.model.transactions.Pairwise (· < ·)) (mem : id ∈ w'.model.transactions)
    (isFinal : id ∉ w'.model.connected → IsFinal w.state)
    (tests : ∃ id', w'.tests <:+ TransactionModel.finalTests id')
    (announced : Slotted id w' → JustAnnounced id w') : Watched id (h ++ [t]) w' where
  control := hworker ▸ hw.control
  phase := hworker ▸ hw.phase.concat ht
  ne_tlsTunnel := hworker ▸ hw.ne_tlsTunnel
  arrives := by rw [hstate, hactions, hworker, hw.arrives]
  calm := hstate ▸ hactions ▸ hw.calm
  announces := by
    have hannounces := hw.announces.concat ht
    rwa [Announces, ← hactions, ← hworker] at hannounces
  sorted := sorted
  mem := mem
  isFinal := hstate ▸ isFinal
  tests := tests
  announced := announced

/-- **One step** keeps what always holds. -/
theorem Watched.step (hw : Watched id h w) (hstep : (system id).step w l w') :
    Watched id (h ++ [⟨w, l, w'⟩]) w' := by
  cases l with
  | complete tl =>
    obtain ⟨hnil, m', hstep, rfl⟩ := hstep
    have hascends := Transaction.ascends_of_step hw.ne_tlsTunnel hstep
    have hstate : w.state = w.worker.tx.notificationState := by
      have harrives := hw.arrives
      rwa [hnil] at harrives
    exact
      { control := (hw.control.performs hstep).control
        phase := hw.phase.step hw.control hw.ne_tlsTunnel hstep rfl rfl
        ne_tlsTunnel := hascends.ne_tlsTunnel hw.ne_tlsTunnel
        arrives := hstate ▸ hascends.arrive_eq
        calm := hstate ▸ hascends.calm
        announces := announces_of_step hw.phase hw.control hw.ne_tlsTunnel hstep rfl rfl rfl rfl
        sorted := hw.sorted
        mem := hw.mem
        isFinal := hw.isFinal
        tests := hw.tests
        announced := hw.announced }
  | act =>
    obtain ⟨state, rest, hactions, hw'⟩ | ⟨signal, rest, hactions, hw'⟩ := act_cases hstep
    · have hannounces : Announces h w' := hw.announces.tail hactions (by rw [hw']) (by rw [hw'])
      have harrives := hw.arrives
      have hcalm := hw.calm
      rw [hactions] at harrives hcalm
      subst hw'
      exact
        { control := hw.control
          phase := hw.phase.concat fun _ ↦ nofun
          ne_tlsTunnel := hw.ne_tlsTunnel
          arrives := harrives
          calm := hcalm.2
          announces := hannounces.concat fun _ ↦ nofun
          sorted := hw.sorted
          mem := hw.mem
          isFinal := fun hid ↦ .inl (hcalm.1 (hw.isFinal hid))
          tests := hw.tests
          announced := fun hslot ↦ (hw.announced hslot).enter rfl rfl }
    · have hannounces : Announces h w' := hw.announces.tail hactions (by rw [hw']) (by rw [hw'])
      have harrives := hw.arrives
      have hcalm := hw.calm
      rw [hactions] at harrives hcalm
      subst hw'
      exact
        { control := hw.control
          phase := hw.phase.concat fun _ ↦ nofun
          ne_tlsTunnel := hw.ne_tlsTunnel
          arrives := harrives
          calm := hcalm
          announces := hannounces.concat fun _ ↦ nofun
          sorted := hw.sorted
          mem := hw.mem
          isFinal := hw.isFinal
          tests := hw.tests
          announced := hw.announced }
  | update =>
    obtain ⟨signal, rest, hqueue, rfl⟩ := update_cases hstep
    have hrows : w.model.transactions = (updated id w.state w).model.transactions :=
      TransactionModel.transactionUpdated_transactions.symm
    have hconnected : w.model.connected = (updated id w.state w).model.connected :=
      TransactionModel.transactionUpdated_connected.symm
    exact hw.gui (fun _ ↦ nofun) rfl rfl rfl (hrows ▸ hw.sorted) (hrows ▸ hw.mem)
      (hconnected ▸ hw.isFinal) ⟨id, TransactionModel.transactionUpdated_tests⟩
      fun _ ↦ justAnnounced_updated hw
  | test =>
    obtain ⟨final, rest, htests, ⟨hfinal, rfl⟩ | ⟨-, rfl⟩⟩ := test_cases hstep
    · -- the model is disconnected in the state that the slot has read
      have hstate : IsFinal w.state := hfinal ▸ hw.isFinal_of_mem (htests ▸ List.mem_cons_self)
      exact hw.gui (fun _ ↦ nofun) rfl rfl rfl hw.sorted hw.mem (fun _ ↦ hstate)
        ⟨id, List.nil_suffix⟩ fun ⟨_, hp, _⟩ ↦ absurd hp List.not_mem_nil
    · have hslot : Slotted id w := ⟨_, htests ▸ List.mem_cons_self, rfl⟩
      exact hw.gui (fun _ ↦ nofun) rfl rfl rfl hw.sorted hw.mem hw.isFinal
        (hw.tests_tail htests) fun _ ↦ hw.announced hslot
  | start id' =>
    obtain ⟨⟨htests, hlt⟩, rfl⟩ := hstep
    exact hw.gui (fun _ ↦ nofun) rfl rfl rfl
      (List.pairwise_append.2 ⟨hw.sorted, by simp, by simpa using hlt⟩)
      (List.mem_append_left _ hw.mem)
      (fun hid ↦ hw.isFinal fun h ↦ hid (Finset.mem_insert_of_mem h)) hw.tests
      fun ⟨_, hp, _⟩ ↦ absurd (htests ▸ hp) List.not_mem_nil
  | updateOther id' state =>
    obtain ⟨⟨htests, hne⟩, rfl⟩ := hstep
    have hrows : w.model.transactions = (updated id' state w).model.transactions :=
      TransactionModel.transactionUpdated_transactions.symm
    have hconnected : w.model.connected = (updated id' state w).model.connected :=
      TransactionModel.transactionUpdated_connected.symm
    have hsuffix : (updated id' state w).tests <:+ TransactionModel.finalTests id' :=
      TransactionModel.transactionUpdated_tests
    exact hw.gui (fun _ ↦ nofun) rfl rfl rfl (hrows ▸ hw.sorted) (hrows ▸ hw.mem)
      (hconnected ▸ hw.isFinal) ⟨id', hsuffix⟩ fun ⟨_, hp, hid⟩ ↦
        absurd ((TransactionModel.isFinal_of_suffix hsuffix hp).1.symm.trans hid) hne
  | testOther state =>
    obtain ⟨id', final, rest, htests, hne, hw'⟩ := testOther_cases hstep
    have hslot : ¬ Slotted id w := hw.not_slotted (htests ▸ List.mem_cons_self) hne
    obtain rfl | rfl := hw'
    · refine hw.gui (fun _ ↦ nofun) rfl rfl rfl hw.sorted hw.mem (fun hid ↦ hw.isFinal fun h ↦ ?_)
        ⟨id, List.nil_suffix⟩ fun ⟨_, hp, _⟩ ↦ absurd hp List.not_mem_nil
      exact hid ((TransactionModel.mem_disconnect_connected hne.symm).2 h)
    · exact hw.gui (fun _ ↦ nofun) rfl rfl rfl hw.sorted hw.mem hw.isFinal (hw.tests_tail htests)
        fun ⟨p, hp, hid⟩ ↦ absurd ⟨p, htests ▸ List.mem_cons_of_mem _ hp, hid⟩ hslot

theorem watched_of_run (hrun : (system id).Run h w) : Watched id h w := by
  induction hrun with
  | start hw =>
    obtain ⟨model, m, hsorted, hlt, hm, rfl⟩ := hw
    exact watched_started hsorted hlt hm
  | move _ hstep ih => exact ih.step hstep

/-! ### What is seen in the end -/

/-- A tunnel has been closed in silence. -/
def Silent (h : List (Move Window Label)) : Prop :=
  (∃ t ∈ h, Closes t) ∧ ∀ t ∈ h, ¬ Fails t

/-- The row will be announced, by a slot that is queued or by the signal at the end of the
transaction, or a tunnel has been closed in silence. -/
def Due (id : ℤ) (h : List (Move Window Label)) (w : Window) : Prop :=
  w.queue ≠ [] ∨ (id ∈ w.model.connected ∧ (EndsEmitting w.actions ∨ w.worker.tx.client ≠ none)) ∨
    Silent h

/-- The last state is shown or will be. -/
def WillShow (id : ℤ) (h : List (Move Window Label)) (w : Window) : Prop :=
  ShowsFinal id w ∨ Due id h w

theorem ShowsFinal.frame (changes : List Change) (hw : ShowsFinal id w)
    (hlog : w'.log = w.log ++ changes) (hchanges : ∀ state, .entered state ∉ changes)
    (hrows : w.model.transactions <+: w'.model.transactions) : ShowsFinal id w' := by
  obtain ⟨before, row, after, heq, hrow, hafter⟩ := hw
  refine ⟨before, row, after ++ changes, by simp [hlog, heq], ?_, fun state ↦ ?_⟩
  · obtain ⟨rest, hrest⟩ := hrows
    obtain ⟨hlt, -⟩ := List.getElem?_eq_some_iff.1 hrow
    rw [← hrest, List.getElem?_append_left hlt, hrow]
  · exact List.not_mem_append (hafter state) (hchanges state)

/-- Where nothing has been entered since the row was announced, the last state is shown. -/
theorem JustAnnounced.showsFinal (hw : JustAnnounced id w)
    (hlast : ¬ ∃ state, w.log.getLast? = some (.entered state)) : ShowsFinal id w := by
  obtain ⟨before, row, states, hrow, heq⟩ := hw
  obtain rfl | ⟨states, state, rfl⟩ := states.eq_nil_or_concat
  · exact ⟨before, row, [.layoutChanged row], heq, hrow, by simp⟩
  · exact absurd ⟨state, by simp [heq, List.getLast?_cons]⟩ hlast

theorem Silent.concat {t : Move Window Label} (hh : Silent h) (ht : ¬ Fails t) :
    Silent (h ++ [t]) :=
  ⟨exists_concat hh.1, forall_not_concat hh.2 ht⟩

/-- A tunnel that has been closed in silence is closed, and the model is still connected. -/
theorem Watched.connected_of_silent (hw : Watched id h w) (hactions : w.actions = [])
    (hh : Silent h) : id ∈ w.model.connected := by
  obtain ⟨⟨u, hu, hcloses⟩, hfails⟩ := hh
  have hstate : w.state = w.worker.tx.notificationState := by
    have harrives := hw.arrives
    rwa [hactions] at harrives
  obtain ⟨-, hnone, -⟩ | ⟨-, -, v, hv, hfail⟩ | ⟨-, -, -, hnone, -⟩ | ⟨-, hfinal, -⟩ := hw.phase
  · exact absurd hcloses (hnone u hu)
  · exact absurd hfail (hfails v hv)
  · exact absurd hcloses (hnone u hu)
  · exact not_not.1 fun hid ↦ hfinal (hstate ▸ hw.isFinal hid)

/-- The start of a handler. -/
theorem Due.complete {m' : Machine} {tl : Transaction.Label} {t : Move Window Label}
    (hw : Watched id h w) (hdue : Due id h w) (hactions : w.actions = [])
    (hstep : Transaction.system.step w.worker tl m') (hlabel : t.label = .complete tl)
    (hsource : t.source = w) :
    Due id (h ++ [t]) { w with worker := m', actions := Transaction.actions w.worker m' } := by
  subst hsource
  have hends {e : Transaction.Effect} (he : effectOf t.source.worker tl = e)
      (hne : e.ends t.source.worker.tx ≠ []) :
      EndsEmitting (Transaction.actions t.source.worker m') :=
    Transaction.endsEmitting_of_step hw.control hw.ne_tlsTunnel hstep he hne
  obtain hqueue | ⟨hid, hends' | hclient⟩ | hsilent := hdue
  · exact .inl hqueue
  · exact absurd (hactions ▸ hends') Transaction.not_endsEmitting_nil
  · -- the client was connected: the handler goes on, ends the transaction or closes the tunnel
    cases he : effectOf t.source.worker tl with
    | proceed ops =>
      obtain ⟨notes, -, happlied⟩ := hw.control.applied hstep he
      have hclient' : m'.tx.client = t.source.worker.tx.client := happlied.client
      exact .inr (.inl ⟨hid, .inr (hclient' ▸ hclient)⟩)
    | finish | fail => exact .inr (.inl ⟨hid, .inl (hends he (List.cons_ne_nil _ _))⟩)
    | release =>
      have hnone : ∀ u ∈ h, ¬ Fails u := by
        obtain ⟨-, -, hf⟩ | ⟨hc, -⟩ | ⟨hc, -⟩ | ⟨hc, -⟩ := hw.phase
        · exact hf
        all_goals exact absurd hc hclient
      have hquiet := not_fails_of_effect hlabel he fun _ ↦ nofun
      exact .inr (.inr ⟨⟨t, List.mem_concat_self, tl, hlabel, he⟩,
        forall_not_concat hnone hquiet⟩)
  · cases he : effectOf t.source.worker tl with
    | fail ec =>
      exact .inr (.inl ⟨hw.connected_of_silent hactions hsilent,
        .inl (hends he (List.cons_ne_nil _ _))⟩)
    | finish | release | proceed =>
      exact .inr (.inr (hsilent.concat (not_fails_of_effect hlabel he fun _ ↦ nofun)))

/-- **One step** leaves due what is not announced, unless a slot disconnects the model and no other
one is queued. -/
theorem Due.step (hdue : Due id h w) (hw : Watched id h w) (hstep : (system id).step w l w')
    (hl : l ≠ .update) (hdisconnects : Disconnects id ⟨w, l, w'⟩ → w.queue ≠ []) :
    Due id (h ++ [⟨w, l, w'⟩]) w' := by
  have hstays (hl : ∀ tl, l ≠ .complete tl) (hsilent : Silent h) :
      Due id (h ++ [⟨w, l, w'⟩]) w' :=
    .inr (.inr (hsilent.concat (not_closes_and_not_fails hl).2))
  cases l with
  | complete tl =>
    obtain ⟨hactions, m', hstep, rfl⟩ := hstep
    exact hdue.complete hw hactions hstep rfl rfl
  | act =>
    obtain hqueue | ⟨hid, hsignal⟩ | hsilent := hdue
    · refine .inl ?_
      obtain ⟨state, rest, -, rfl⟩ | ⟨signal, rest, -, rfl⟩ := act_cases hstep
      · exact hqueue
      · exact List.append_ne_nil_of_left_ne_nil hqueue _
    · obtain ⟨state, rest, hactions, rfl⟩ | ⟨signal, rest, hactions, rfl⟩ := act_cases hstep
      · rw [hactions] at hsignal
        exact .inr (.inl ⟨hid, hsignal.imp_left EndsEmitting.of_enter⟩)
      · obtain hends | hclient := hsignal
        · rw [hactions] at hends
          obtain hends | ⟨hlast, -⟩ := hends.of_emit
          · exact .inr (.inl ⟨hid, .inl hends⟩)
          · -- the signal is connected, so that a slot is queued
            refine .inl (List.append_ne_nil_of_right_ne_nil _ ?_)
            rw [if_pos hid]
            cases signal <;> first | exact absurd rfl hlast | exact List.cons_ne_nil _ _
        · exact .inr (.inl ⟨hid, .inr hclient⟩)
    · exact hstays (fun _ ↦ nofun) hsilent
  | update => exact absurd rfl hl
  | test =>
    obtain ⟨final, rest, htests, ⟨hfinal, rfl⟩ | ⟨-, rfl⟩⟩ := test_cases hstep
    · refine .inl (hdisconnects ⟨rfl, ?_⟩)
      rw [htests, hfinal]
      rfl
    · obtain hqueue | hsignal | hsilent := hdue
      · exact .inl hqueue
      · exact .inr (.inl hsignal)
      · exact hstays (fun _ ↦ nofun) hsilent
  | start id' =>
    obtain hqueue | ⟨hid, hsignal⟩ | hsilent := hdue
    · obtain ⟨-, rfl⟩ := hstep
      exact .inl hqueue
    · obtain ⟨-, rfl⟩ := hstep
      exact .inr (.inl ⟨Finset.mem_insert_of_mem hid, hsignal⟩)
    · exact hstays (fun _ ↦ nofun) hsilent
  | updateOther id' state =>
    obtain hqueue | ⟨hid, hsignal⟩ | hsilent := hdue
    · obtain ⟨-, rfl⟩ := hstep
      exact .inl hqueue
    · obtain ⟨-, rfl⟩ := hstep
      have hconnected : (updated id' state w).model.connected = w.model.connected :=
        TransactionModel.transactionUpdated_connected
      exact .inr (.inl ⟨hconnected ▸ hid, hsignal⟩)
    · exact hstays (fun _ ↦ nofun) hsilent
  | testOther state =>
    obtain hqueue | ⟨hid, hsignal⟩ | hsilent := hdue
    · obtain ⟨id', final, rest, -, -, rfl | rfl⟩ := testOther_cases hstep
      all_goals exact .inl hqueue
    · obtain ⟨id', final, rest, -, hne, rfl | rfl⟩ := testOther_cases hstep
      · exact .inr (.inl ⟨(TransactionModel.mem_disconnect_connected hne.symm).2 hid, hsignal⟩)
      · exact .inr (.inl ⟨hid, hsignal⟩)
    · exact hstays (fun _ ↦ nofun) hsilent

/-- A slot that starts shows the state. -/
theorem showsFinal_updated {rest : List Signal} (hw : Watched id h w) :
    ShowsFinal id { updated id w.state w with queue := rest } := by
  obtain ⟨row, hrow, hupdated⟩ := TransactionModel.transactionUpdated_of_mem
    w.state hw.sorted hw.mem
  refine ⟨w.log, row, [.layoutChanged row], ?_, ?_, by simp⟩
  · show w.log ++ (w.model.transactionUpdated id w.state).2.1 = _
    rw [hupdated]
  · show (w.model.transactionUpdated id w.state).1.transactions[row]? = some id
    rw [TransactionModel.transactionUpdated_transactions, hrow]

/-- A state that is entered will be shown. -/
theorem Watched.enter {state : NotificationState} {rest : List Action} (hw : Watched id h w)
    (hactions : w.actions = .enter state :: rest)
    (hseen : state = .error → id ∈ w.model.connected ∨ w.queue ≠ []) :
    w.queue ≠ [] ∨ (id ∈ w.model.connected ∧ (EndsEmitting rest ∨ w.worker.tx.client ≠ none)) ∨
      Silent h := by
  have hcalm := hw.calm
  have hannounces := hw.announces
  rw [hactions] at hcalm
  rw [Announces, hactions] at hannounces
  -- only `Error` follows a final state, so that for any other the model is still connected
  have hid : id ∈ w.model.connected ∨ w.queue ≠ [] := by
    cases hstate : decide (state = .error) with
    | true => exact hseen (of_decide_eq_true hstate)
    | false =>
      refine .inl (not_not.1 fun hid ↦ of_decide_eq_false hstate (hcalm.1 (hw.isFinal hid)))
  -- what announces the state will find the model connected
  obtain hid | hqueue := hid
  · obtain hnone | hends | hclient | hsilent := hannounces
    · exact absurd List.mem_cons_self (hnone state)
    · exact .inr (.inl ⟨hid, .inl hends.of_enter⟩)
    · exact .inr (.inl ⟨hid, .inr hclient⟩)
    · exact .inr (.inr hsilent)
  · exact .inl hqueue

/-- What is shown stays shown, or is due once another state has been entered. -/
theorem ShowsFinal.step (hshown : ShowsFinal id w) (hw : Watched id h w)
    (hstep : (system id).step w l w') (hseen : ¬ FailsUnseen id ⟨w, l, w'⟩) :
    WillShow id (h ++ [⟨w, l, w'⟩]) w' := by
  cases l with
  | complete tl =>
    obtain ⟨-, m', -, rfl⟩ := hstep
    exact .inl (hshown.frame [] (by simp) (by simp) List.prefix_rfl)
  | act =>
    obtain ⟨state, rest, hactions, rfl⟩ | ⟨signal, rest, hactions, rfl⟩ := act_cases hstep
    · have herror : state = .error → id ∈ w.model.connected ∨ w.queue ≠ [] := by
        rintro rfl
        refine or_iff_not_imp_left.2 fun hid hqueue ↦ hseen ⟨rfl, ?_, hid, hqueue⟩
        rw [hactions]
        rfl
      obtain hqueue | hconnected | hh := hw.enter hactions herror
      · exact .inr (.inl hqueue)
      · exact .inr (.inr (.inl hconnected))
      · exact .inr (.inr (.inr (hh.concat (not_closes_and_not_fails fun _ ↦ by simp).2)))
    · exact .inl (hshown.frame [] (by simp) (by simp) List.prefix_rfl)
  | update =>
    obtain ⟨signal, rest, hqueue, rfl⟩ := update_cases hstep
    exact .inl (showsFinal_updated hw)
  | test =>
    obtain ⟨final, rest, htests, ⟨-, rfl⟩ | ⟨-, rfl⟩⟩ := test_cases hstep
    all_goals exact .inl (hshown.frame [] (by simp) (by simp) List.prefix_rfl)
  | start id' =>
    obtain ⟨-, rfl⟩ := hstep
    exact .inl (hshown.frame [] (by simp) (by simp) (List.prefix_append _ _))
  | updateOther id' state =>
    obtain ⟨-, rfl⟩ := hstep
    refine .inl (hshown.frame _ rfl TransactionModel.entered_not_mem_transactionUpdated ?_)
    show w.model.transactions <+: (w.model.transactionUpdated id' state).1.transactions
    rw [TransactionModel.transactionUpdated_transactions]
  | testOther state =>
    obtain ⟨id', final, rest, -, -, rfl | rfl⟩ := testOther_cases hstep
    all_goals exact .inl (hshown.frame [] (by simp) (by simp) List.prefix_rfl)

/-- **One step** keeps the last state in sight, if no failure goes unseen in it and no slot gives up
unseen. -/
theorem WillShow.step (hw : Watched id h w) (hshow : WillShow id h w)
    (hstep : (system id).step w l w') (hseen : ¬ FailsUnseen id ⟨w, l, w'⟩)
    (hdisconnects : ¬ DisconnectsUnseen id ⟨w, l, w'⟩) :
    WillShow id (h ++ [⟨w, l, w'⟩]) w' := by
  obtain hshown | hdue := hshow
  · exact hshown.step hw hstep hseen
  by_cases hl : l = .update
  · subst hl
    obtain ⟨signal, rest, hqueue, rfl⟩ := update_cases hstep
    exact .inl (showsFinal_updated hw)
  by_cases hseen' : Disconnects id ⟨w, l, w'⟩ ∧ w.queue = []
  · -- the slot that gives up has shown the last state
    obtain ⟨hdis, hqueue⟩ := hseen'
    have hslot : Slotted id w := ⟨_, List.mem_of_mem_head? hdis.2, rfl⟩
    have hshown : ShowsFinal id w := (hw.announced hslot).showsFinal fun hlast ↦
      hdisconnects ⟨hdis, hlast, hqueue⟩
    exact hshown.step hw hstep hseen
  · exact .inr (hdue.step hw hstep hl fun hdis hqueue ↦ hseen' ⟨hdis, hqueue⟩)

/-- **The last state is shown**, if no failure goes unseen, no slot gives up unseen and no tunnel
ends in silence. -/
theorem showsFinal_of_endsSeen (hrun : (system id).Run h w) (hquiet : Quiescent w)
    (hh : EndsSeen id h) : ShowsFinal id w := by
  have hwill : WillShow id h w := by
    refine hrun.history_induction (P := fun t ↦ ¬ FailsUnseen id t ∧ ¬ DisconnectsUnseen id t)
      (I := WillShow id) (fun w hw ↦ ?_) (fun h w l w' hrun ih hstep ht ↦ ?_)
      fun t ht ↦ ⟨hh.failure t ht, hh.disconnection t ht⟩
    · obtain ⟨model, m, -, -, hm, rfl⟩ := hw
      obtain rfl := Transaction.init_iff.1 hm
      exact .inr (.inr (.inl ⟨Finset.mem_insert_self _ _, .inr (Option.some_ne_none _)⟩))
    · exact ih.step (watched_of_run hrun) hstep ht.1 ht.2
  have hw := watched_of_run hrun
  obtain hshown | hqueue | ⟨-, hends | hclient⟩ | ⟨hcloses, hfails⟩ := hwill
  · exact hshown
  · exact absurd hquiet.queue hqueue
  · exact absurd (hquiet.actions ▸ hends) Transaction.not_endsEmitting_nil
  · exact absurd (hw.control.stage.client_of_pending_nil hquiet.pending) hclient
  · obtain ⟨t, ht, hfail⟩ := hh.closing hcloses
    exact absurd hfail (hfails t ht)

end Window

end Amanuensis
