import Amanuensis.App.Activities
import Amanuensis.App.Cells

/-!
# What the rows show

The view asks for the cells of a row again when the row is announced, so a row is out of date if its
cells change after it has been announced for the last time. In the end it never is, even where the
last state of the transaction is missed. A message is only read while the list is connected, and
there is a signal to come; and once a slot runs that may disconnect the list, the cells are settled
(`announced_of_slotted`). The exception is a tunnel that is closed in silence, whose row stays as
empty as it was at first (`announced_eq_iff`).

As the bytes that a transaction reads tell its cells, what is on display in the end can be told from
the bytes alone (`displays_of_run`).
-/

open LabelledSystem

namespace Amanuensis

open TransactionModel (cells)

/-! ### What is announced -/

namespace Window

open Transaction (EndsEmitting clientReads remoteReads cellsOf)

variable {id : ℤ} {w w' : Window} {l : Label} {h : List (Move Window Label)}

/-- The move announces the row of the transaction. `dataChanged` names the first cell only; it is
`layoutChanged`, which always follows, that makes the view ask for the others. -/
def announcesRow (id : ℤ) (t : Move Window Label) : Bool :=
  (t.target.log.drop t.source.log.length).any fun c ↦
    match c with
    | .dataChanged row => t.target.model.transactions[row]? == some id
    | _ => false

/-- **The cells that the view has been told of**: those that the transaction had when its row was
announced for the last time, and else those it had when the row was inserted. A slot that runs
while a handler reads a message finds a part of it; here it runs before the handler, so that it
finds less. -/
def announced (id : ℤ) (h : List (Move Window Label)) : List (Option QString) :=
  h.foldl (fun shown t ↦ if announcesRow id t then cells t.source.worker.tx else shown) (cells {})

theorem announced_append (h : List (Move Window Label)) (t : Move Window Label) :
    announced id (h ++ [t]) =
      if announcesRow id t then cells t.source.worker.tx else announced id h :=
  List.foldl_append

/-- A slot of the transaction announces its row. -/
theorem announcesRow_update (hw : Watched id h w) (hstep : (system id).step w .update w') :
    announcesRow id ⟨w, .update, w'⟩ = true := by
  obtain ⟨signal, rest, -, rfl⟩ := update_cases hstep
  obtain ⟨row, hrow, hupdated⟩ := TransactionModel.transactionUpdated_of_mem
    w.state hw.sorted hw.mem
  have hrows : (w.model.transactionUpdated id w.state).1.transactions = w.model.transactions :=
    TransactionModel.transactionUpdated_transactions
  simp [announcesRow, updated, hupdated, hrow]

/-- Nothing else does. -/
theorem announcesRow_eq_false (hstep : (system id).step w l w') (hl : l ≠ .update) :
    announcesRow id ⟨w, l, w'⟩ = false := by
  cases l with
  | complete tl =>
    obtain ⟨-, m', -, rfl⟩ := hstep
    simp [announcesRow]
  | act =>
    obtain ⟨state, rest, -, rfl⟩ | ⟨signal, rest, -, rfl⟩ := act_cases hstep
    all_goals simp [announcesRow]
  | update => exact absurd rfl hl
  | start id' =>
    obtain ⟨-, rfl⟩ := hstep
    simp [announcesRow]
  | test =>
    obtain ⟨final, rest, -, ⟨-, rfl⟩ | ⟨-, rfl⟩⟩ := test_cases hstep
    all_goals simp [announcesRow]
  | testOther state =>
    obtain ⟨id', final, rest, -, -, rfl | rfl⟩ := testOther_cases hstep
    all_goals simp [announcesRow]
  | updateOther id' state =>
    obtain ⟨⟨-, hne⟩, rfl⟩ := hstep
    obtain hnone | ⟨row, hrow, hsome⟩ :=
      TransactionModel.transactionUpdated_cases id' state w.model
    · simp [announcesRow, updated, hnone]
    · simp [announcesRow, updated, hsome, hrow, hne]

/-! ### The transaction by itself -/

/-- What a step is for the transaction. -/
def workerLabel (t : Move Window Label) : Option Transaction.Label :=
  match t.label with
  | .complete l => some l
  | _ => none

/-- The moves of the transaction. -/
def workerHistory (h : List (Move Window Label)) : List (Move Machine Transaction.Label) :=
  project (fun w : Window ↦ some w.worker) workerLabel h

/-- **The transaction of a window** runs as if nobody looked. -/
theorem worker_projects (id : ℤ) :
    Projects (system id) Transaction.system (fun _ ↦ True) (fun _ ↦ True)
      (fun w ↦ some w.worker) workerLabel where
  start w hw v hv := by
    obtain ⟨model, m, -, -, hm, rfl⟩ := hw
    obtain rfl := Option.some.inj hv
    exact hm
  appear _ _ _ _ _ _ hnone := absurd hnone (by simp)
  go w l w' v _ hstep _ hv := by
    obtain rfl := Option.some.inj hv
    refine ⟨w'.worker, rfl, ?_⟩
    cases l with
    | complete tl =>
      obtain ⟨-, m', hstep, rfl⟩ := hstep
      exact hstep
    | act | update | test | start | updateOther | testOther =>
      exact (worker_of_step hstep fun _ ↦ nofun).1

theorem worker_run (hrun : (system id).Run h w) :
    Transaction.system.Run (workerHistory h) w.worker :=
  (worker_projects id).run (fun _ _ _ _ ↦ trivial) hrun (fun _ _ ↦ trivial) rfl

/-! ### Settled rows -/

/-- The list has not been told of the transaction. -/
structure Untold (id : ℤ) (w : Window) : Prop where
  queue : w.queue = []
  slot : ¬ Slotted id w
  emit : ∀ signal, .emit signal ∈ w.actions → signal = .transactionStart

/-- **Before the head of the response has been read** the list is told nothing. -/
theorem untold_of_run (hrun : (system id).Run h w) (hunread : Transaction.Unread w.worker) :
    Untold id w := by
  induction hrun with
  | start hw =>
    obtain ⟨model, m, -, -, hm, rfl⟩ := hw
    obtain rfl := Transaction.init_iff.1 hm
    exact ⟨rfl, by simp [Slotted, started], fun signal hmem ↦
      Action.emit.inj (List.mem_singleton.1 hmem)⟩
  | @move h w w' l hrun hstep ih =>
    have hw := watched_of_run hrun
    cases l with
    | complete tl =>
      obtain ⟨-, m', hstep, rfl⟩ := hstep
      obtain ⟨hbefore, hsilent⟩ := Transaction.Unread.of_step (worker_run hrun) hstep hunread
      have huntold := ih hbefore
      exact ⟨huntold.queue, huntold.slot, fun signal hmem ↦ absurd hmem (hsilent signal)⟩
    | act =>
      obtain ⟨state, rest, hactions, rfl⟩ | ⟨signal, rest, hactions, rfl⟩ := act_cases hstep
      · obtain ⟨hqueue, hslot, hemit⟩ := ih hunread
        rw [hactions] at hemit
        exact ⟨hqueue, hslot, fun signal hmem ↦ hemit signal (List.mem_cons_of_mem _ hmem)⟩
      · obtain ⟨hqueue, hslot, hemit⟩ := ih hunread
        rw [hactions] at hemit
        obtain rfl := hemit signal List.mem_cons_self
        refine ⟨?_, hslot, fun signal hmem ↦ hemit signal (List.mem_cons_of_mem _ hmem)⟩
        show w.queue ++ _ = []
        rw [hqueue]
        split_ifs <;> rfl
    | update =>
      obtain ⟨signal, rest, hqueue, rfl⟩ := update_cases hstep
      exact absurd ((ih hunread).queue.symm.trans hqueue) (by simp)
    | test =>
      obtain ⟨final, rest, htests, ⟨-, rfl⟩ | ⟨-, rfl⟩⟩ := test_cases hstep
      all_goals exact absurd ⟨_, htests ▸ List.mem_cons_self, rfl⟩ (ih hunread).slot
    | start id' =>
      obtain ⟨-, rfl⟩ := hstep
      have huntold := ih hunread
      exact ⟨huntold.queue, huntold.slot, huntold.emit⟩
    | updateOther id' state =>
      obtain ⟨⟨-, hne⟩, rfl⟩ := hstep
      have huntold := ih hunread
      refine ⟨huntold.queue, ?_, huntold.emit⟩
      rintro ⟨p, hp, hid⟩
      refine hne ?_
      exact (TransactionModel.isFinal_of_suffix TransactionModel.transactionUpdated_tests
        hp).1.symm.trans hid
    | testOther state =>
      have huntold : Untold id w := by
        obtain ⟨id', final, rest, -, -, rfl | rfl⟩ := testOther_cases hstep
        all_goals exact ih hunread
      obtain ⟨id', final, rest, htests, -, rfl | rfl⟩ := testOther_cases hstep
      · refine ⟨huntold.queue, ?_, huntold.emit⟩
        rintro ⟨p, hp, -⟩
        exact absurd hp List.not_mem_nil
      · refine ⟨huntold.queue, ?_, huntold.emit⟩
        rintro ⟨p, hp, hid⟩
        exact huntold.slot ⟨p, htests ▸ List.mem_cons_of_mem _ hp, hid⟩

/-- **While a slot of the transaction runs** its row is up to date. -/
theorem announced_of_slotted (hrun : (system id).Run h w) (hslot : Slotted id w) :
    announced id h = cells w.worker.tx := by
  induction hrun with
  | start hw =>
    obtain ⟨model, m, -, -, -, rfl⟩ := hw
    obtain ⟨p, hp, -⟩ := hslot
    exact absurd hp List.not_mem_nil
  | @move h w w' l hrun hstep ih =>
    have hw := watched_of_run hrun
    by_cases hl : l = .update
    · subst hl
      rw [announced_append, if_pos (announcesRow_update hw hstep)]
      obtain ⟨signal, rest, -, rfl⟩ := update_cases hstep
      rfl
    · rw [announced_append, if_neg (by simp [announcesRow_eq_false hstep hl])]
      cases l with
      | complete tl =>
        obtain ⟨-, m', hstep, rfl⟩ := hstep
        rw [ih hslot]
        by_contra hne
        exact (untold_of_run hrun (Transaction.unread_of_cells_ne (worker_run hrun) hstep
          fun hsame ↦ hne hsame.symm)).slot hslot
      | act =>
        obtain ⟨_, _, -, rfl⟩ | ⟨_, _, -, rfl⟩ := act_cases hstep
        all_goals exact ih hslot
      | update => exact absurd rfl hl
      | test =>
        obtain ⟨final, rest, htests, ⟨-, rfl⟩ | ⟨-, rfl⟩⟩ := test_cases hstep
        all_goals exact ih ⟨_, htests ▸ List.mem_cons_self, rfl⟩
      | start id' =>
        obtain ⟨-, rfl⟩ := hstep
        exact ih hslot
      | updateOther id' state =>
        obtain ⟨⟨-, hne⟩, rfl⟩ := hstep
        obtain ⟨p, hp, hid⟩ := hslot
        exact absurd ((TransactionModel.isFinal_of_suffix
          TransactionModel.transactionUpdated_tests hp).1.symm.trans hid) hne
      | testOther state =>
        obtain ⟨id', final, rest, htests, -, rfl | rfl⟩ := testOther_cases hstep
        · obtain ⟨p, hp, -⟩ := hslot
          exact absurd hp List.not_mem_nil
        · obtain ⟨p, hp, hid⟩ := hslot
          exact ih ⟨p, htests ▸ List.mem_cons_of_mem _ hp, hid⟩

/-! ### What is due -/

/-- **Cells change** while the row is due. -/
theorem due_of_cells_ne {m' : Machine} {tl : Transaction.Label} (hw : Watched id h w)
    (hactions : w.actions = []) (hstep : Transaction.system.step w.worker tl m')
    (hne : cells m'.tx ≠ cells w.worker.tx) : Due id h w := by
  obtain ⟨hclient, hopen⟩ := Transaction.reading_of_cells_ne hw.control hstep hne
  have hstate : w.state = w.worker.tx.notificationState := by
    have harrives := hw.arrives
    rwa [hactions] at harrives
  exact .inr (.inl ⟨not_not.1 fun hid ↦ hopen (hstate ▸ hw.isFinal hid), .inr hclient⟩)

/-- **In every run** the row is up to date or due. -/
theorem announced_or_due_of_run (hrun : (system id).Run h w) :
    announced id h = cells w.worker.tx ∨ Due id h w := by
  induction hrun with
  | start hw =>
    obtain ⟨model, m, -, -, hm, rfl⟩ := hw
    obtain rfl := Transaction.init_iff.1 hm
    exact .inl rfl
  | @move h w w' l hrun hstep ih =>
    have hw := watched_of_run hrun
    by_cases hl : l = .update
    · subst hl
      rw [announced_append, if_pos (announcesRow_update hw hstep)]
      obtain ⟨signal, rest, -, rfl⟩ := update_cases hstep
      exact .inl rfl
    · rw [announced_append, if_neg (by simp [announcesRow_eq_false hstep hl])]
      by_cases hshown : announced id h = cells w.worker.tx
      · by_cases hsame : cells w'.worker.tx = cells w.worker.tx
        · exact .inl (hshown.trans hsame.symm)
        · cases l with
          | complete tl =>
            have hdue : Due id h w := by
              obtain ⟨hactions, m', hstep, rfl⟩ := hstep
              exact due_of_cells_ne hw hactions hstep hsame
            exact .inr (hdue.step hw hstep hl fun hdisconnects ↦ absurd hdisconnects.1 (by simp))
          | act | update | test | start | updateOther | testOther =>
            rw [(worker_of_step hstep fun _ ↦ nofun).1] at hsame
            exact absurd rfl hsame
      · refine .inr ((ih.resolve_left hshown).step hw hstep hl fun hdisconnects ↦ ?_)
        -- the slot that gives up has told of the cells
        exact absurd (announced_of_slotted hrun ⟨_, List.mem_of_mem_head? hdisconnects.2, rfl⟩)
          hshown

/-! ### Tunnels that are closed in silence -/

/-- A tunnel that has been closed was asked for. -/
theorem method_of_closes (hrun : (system id).Run h w) (hcloses : ∃ t ∈ h, Closes t) :
    w.worker.tx.request.method = QString.ofString "CONNECT" := by
  induction hrun with
  | start => exact absurd hcloses (by simp)
  | @move h w w' l hrun hstep ih =>
    have hw := watched_of_run hrun
    cases l with
    | complete tl =>
      obtain ⟨-, m', hstep, rfl⟩ := hstep
      have hsource : tl.operation.direction ≠ none ∧
          w.worker.tx.request.method = QString.ofString "CONNECT" := by
        obtain ⟨t, ht, hcloses⟩ := hcloses
        obtain ht | ht := List.mem_append.1 ht
        · -- what goes on then goes on in the tunnel
          refine ⟨fun hd ↦ ?_, ih ⟨t, ht, hcloses⟩⟩
          have hclient := (hw.control.stage.expected hstep.1 hd).2.1
          obtain ⟨-, hnone, -⟩ | ⟨hc, -⟩ | ⟨hc, -⟩ | ⟨hc, -⟩ := hw.phase
          · exact hnone t ht hcloses
          all_goals exact absurd (hc.symm.trans hclient) (by simp)
        · obtain rfl := List.mem_singleton.1 ht
          obtain ⟨d, hop, -⟩ := Transaction.effectOf_eq_release ((closes_iff rfl).1 hcloses)
          have hd : tl.operation.direction ≠ none := by rw [hop]; exact Option.some_ne_none d
          exact ⟨hd, Transaction.method_of_direction (worker_run hrun) hstep.1 hd⟩
      have hread : tl.operation ≠ .readClientRequest := fun hread ↦ hsource.1 (hread ▸ rfl)
      have hsame := Transaction.request_of_step hw.control hstep hread
      exact (congrArg HttpMessage.method hsame).trans hsource.2
    | act | update | test | start | updateOther | testOther =>
      rw [(worker_of_step hstep fun _ ↦ nofun).1]
      obtain ⟨t, ht, hcloses⟩ := hcloses
      obtain ht | ht := List.mem_append.1 ht
      · exact ih ⟨t, ht, hcloses⟩
      · obtain rfl := List.mem_singleton.1 ht
        obtain ⟨tl, hlabel, -⟩ := hcloses
        exact absurd hlabel (by simp)

/-- What has been logged and the rows there are stay. -/
theorem prefix_of_step (hstep : (system id).step w l w') :
    w.log <+: w'.log ∧ w.model.transactions <+: w'.model.transactions := by
  have hupdated (id' : ℤ) (state : NotificationState) :
      w.log <+: (updated id' state w).log ∧
        w.model.transactions <+: (updated id' state w).model.transactions := by
    have hrows : (updated id' state w).model.transactions = w.model.transactions :=
      TransactionModel.transactionUpdated_transactions
    exact ⟨List.prefix_append _ _, hrows ▸ List.prefix_rfl⟩
  cases l with
  | complete tl =>
    obtain ⟨-, m', -, rfl⟩ := hstep
    exact ⟨List.prefix_rfl, List.prefix_rfl⟩
  | act =>
    obtain ⟨state, rest, -, rfl⟩ | ⟨signal, rest, -, rfl⟩ := act_cases hstep
    · exact ⟨List.prefix_append _ _, List.prefix_rfl⟩
    · exact ⟨List.prefix_rfl, List.prefix_rfl⟩
  | update =>
    obtain ⟨signal, rest, -, rfl⟩ := update_cases hstep
    exact hupdated id w.state
  | test =>
    obtain ⟨final, rest, -, ⟨-, rfl⟩ | ⟨-, rfl⟩⟩ := test_cases hstep
    all_goals exact ⟨List.prefix_rfl, List.prefix_rfl⟩
  | testOther state =>
    obtain ⟨id', final, rest, -, -, rfl | rfl⟩ := testOther_cases hstep
    all_goals exact ⟨List.prefix_rfl, List.prefix_rfl⟩
  | start id' =>
    obtain ⟨-, rfl⟩ := hstep
    exact ⟨List.prefix_rfl, List.prefix_append _ _⟩
  | updateOther id' state =>
    obtain ⟨-, rfl⟩ := hstep
    exact hupdated id' state

/-- What has been announced has been logged. -/
theorem announced_or_logged_of_run (hrun : (system id).Run h w) :
    announced id h = cells {} ∨
      ∃ row, w.model.transactions[row]? = some id ∧ .dataChanged row ∈ w.log := by
  induction hrun with
  | start => exact .inl rfl
  | @move h w w' l hrun hstep ih =>
    by_cases hl : l = .update
    · subst hl
      obtain ⟨signal, rest, -, rfl⟩ := update_cases hstep
      have hshows : ShowsFinal id { updated id w.state w with queue := rest } :=
        showsFinal_updated (watched_of_run hrun)
      obtain ⟨before, row, after, hlog, hrow, -⟩ := hshows
      refine .inr ⟨row, hrow, ?_⟩
      rw [hlog]
      exact List.mem_append_right _ List.mem_cons_self
    · rw [announced_append, if_neg (by simp [announcesRow_eq_false hstep hl])]
      refine ih.imp_right fun ⟨row, hrow, hmem⟩ ↦ ⟨row, ?_, ?_⟩
      · obtain ⟨hlt, -⟩ := List.getElem?_eq_some_iff.1 hrow
        obtain ⟨rows, hrows⟩ := (prefix_of_step hstep).2
        rw [← hrows, List.getElem?_append_left hlt, hrow]
      · exact (prefix_of_step hstep).1.subset hmem

/-- The row of a tunnel that is closed in silence stays as it was at first. -/
theorem announced_of_silent (hrun : (system id).Run h w) (hquiet : Quiescent w)
    (hsilent : Silent h) : announced id h = cells {} := by
  have hw := watched_of_run hrun
  obtain ⟨⟨t, ht, hcloses⟩, hfails⟩ := hsilent
  obtain (⟨op, hop, -⟩ | ⟨-, hstate⟩) | ⟨-, hhidden, -⟩ := relaying_or_unheard_of_run hrun hfails
  · exact absurd (hquiet.pending ▸ hop) List.not_mem_nil
  · -- the tunnel is closed in a state that is not final
    obtain ⟨-, hnone, -⟩ | ⟨-, -, u, hu, hfail⟩ | ⟨-, -, -, hnone, -⟩ | ⟨-, hfinal, -⟩ := hw.phase
    · exact absurd hcloses (hnone t ht)
    · exact absurd hfail (hfails u hu)
    · exact absurd hcloses (hnone t ht)
    · exact absurd (.inr hstate) hfinal
  · obtain hnone | ⟨row, hrow, hmem⟩ := announced_or_logged_of_run hrun
    · exact hnone
    · obtain ⟨after, hlog, hafter⟩ := hhidden.log
      rw [hlog, List.nil_append] at hmem
      exact absurd hmem (hafter row hrow)

/-- **When a row is up to date in the end**: exactly if no tunnel has been closed in silence. -/
theorem announced_eq_iff (hrun : (system id).Run h w) (hquiet : Quiescent w) :
    announced id h = cells w.worker.tx ↔ ¬ Silent h := by
  constructor
  · intro hshown hsilent
    rw [announced_of_silent hrun hquiet hsilent] at hshown
    have hmethod := method_of_closes hrun hsilent.1
    have hhead : some [] = some w.worker.tx.request.method := (List.cons.inj hshown).1
    rw [hmethod] at hhead
    exact absurd hhead (by decide)
  · intro hnot
    obtain hshown | hqueue | ⟨-, hends | hclient⟩ | hsilent := announced_or_due_of_run hrun
    · exact hshown
    · exact absurd hquiet.queue hqueue
    · exact absurd (hquiet.actions ▸ hends) Transaction.not_endsEmitting_nil
    · have hw := watched_of_run hrun
      exact absurd (hw.control.stage.client_of_pending_nil hquiet.pending) hclient
    · exact absurd hsilent hnot

/-- **What is on display in the end**, in terms of the bytes that have been read. -/
theorem announced_eq_cellsOf_iff (hrun : (system id).Run h w) (hquiet : Quiescent w) :
    announced id h = cellsOf (clientReads (workerHistory h)).flatten
      (remoteReads (workerHistory h)).flatten ↔ ¬ Silent h := by
  rw [← Transaction.cells_of_run (worker_run hrun)]
  exact announced_eq_iff hrun hquiet

end Window

/-! ### The rows of an application -/

namespace Application

open HttpMessageParser (asciiBytes)
open Transaction (clientReads remoteReads cellsOf)

variable {a : Application} {h : List (Move Application Label)} {k : ℕ} {activity : Activity}

/-- **The cells that the view has been told of**, in the row of a transaction. -/
def onDisplay (k : ℕ) (h : List (Move Application Label)) : List (Option QString) :=
  Window.announced ((k : ℤ) + 1) (historyOf k h)

/-- The moves of a transaction. -/
def transactionHistory (k : ℕ) (h : List (Move Application Label)) :
    List (Move Machine Transaction.Label) :=
  Window.workerHistory (historyOf k h)

/-- A tunnel of the transaction has been closed in silence. -/
def Silent (k : ℕ) (h : List (Move Application Label)) : Prop :=
  (∃ t ∈ h, Has k .release t) ∧ ∀ t ∈ h, ∀ ec, ¬ Has k (.fail ec) t

theorem silent_historyOf_iff (hrun : system.Run h a) (hfew : Few a) :
    Window.Silent (historyOf k h) ↔ Silent k h := by
  refine and_congr (exists_effect_iff hrun hfew .release) ⟨fun hnone t ht ec hhas ↦ ?_,
    fun hnone u hu ⟨l, ec, hlabel, heffect⟩ ↦ ?_⟩
  · obtain ⟨u, hu, l, hlabel, heffect⟩ :=
      (exists_effect_iff hrun hfew (.fail ec)).2 ⟨t, ht, hhas⟩
    exact hnone u hu ⟨l, ec, hlabel, heffect⟩
  · obtain ⟨t, ht, hhas⟩ :=
      (exists_effect_iff hrun hfew (.fail ec)).1 ⟨u, hu, l, hlabel, heffect⟩
    exact hnone t ht ec hhas

/-- What is on display of a transaction, after some moves. -/
structure Displays (k : ℕ) (h : List (Move Application Label)) : Prop where
  /-- The row shows what the bytes of the client and of the remote say, read all at once, exactly if
  no tunnel has been closed in silence. -/
  upToDate : onDisplay k h = cellsOf (clientReads (transactionHistory k h)).flatten
    (remoteReads (transactionHistory k h)).flatten ↔ ¬ Silent k h
  /-- Else it is as empty as it was at first. -/
  empty : Silent k h → onDisplay k h = cells {}

/-- **What is on display in the end**, once nothing is left to do. -/
theorem displays_of_run (hrun : system.Run h a) (hfew : Few a) (hquiet : Quiescent a)
    (hget : a.activities[k]? = some activity) : Displays k h := by
  obtain ⟨hpending, hactions⟩ := hquiet.activities activity (List.mem_of_getElem? hget)
  have hrest : Window.Quiescent (a.windowOf activity) := by
    refine ⟨hpending, hactions, ?_⟩
    show queueOf activity.id a.posted = []
    rw [hquiet.posted]
    rfl
  have hwindow := window_run hrun hfew (view_eq hget)
  have hsilent : Window.Silent (historyOf k h) ↔ Silent k h := silent_historyOf_iff hrun hfew
  constructor
  · rw [← hsilent]
    exact Window.announced_eq_cellsOf_iff hwindow hrest
  · exact fun hk ↦ Window.announced_of_silent hwindow hrest (hsilent.2 hk)

/-- The labels of a handler. -/
def handled (k : ℕ) (l : Transaction.Label) (actions : ℕ) : List Label :=
  .complete k l :: List.replicate actions (.act k)

/-- One client gets a response, and the other one closes a tunnel. -/
def relayedAndTunnelled : List Label :=
  [.serve (.accept {}), .serve (.accept {}), .run, .dispatch, .dispatch, .act 0, .act 1] ++
    (List.zipWith (handled 0)
      (Transaction.requestLabels ++
        [⟨.readRemoteResponse, { data := asciiBytes "HTTP/1.1 204 No Content\r\n\r\n" }⟩,
          ⟨.sendResponse (asciiBytes "HTTP/1.1 204 No Content\r\n\r\n"), { written := 27 }⟩])
      [4, 0, 0, 0, 5, 1]).flatten ++
    (List.zipWith (handled 1)
      (Transaction.tunnelLabels ++
        [⟨.tunnelRead .clientToRemote, { ec := .eof }⟩,
          ⟨.tunnelRead .remoteToClient, { ec := { value := 125 } }⟩])
      [1, 0, 0, 0, 0, 0]).flatten ++
    (List.replicate 4 [.dispatch, .test, .test]).flatten

theorem relayedAndTunnelled_displays :
    ∃ h a, system.Run h a ∧ Quiescent a ∧
      (Displays 0 h ∧ ¬ Silent 0 h ∧
        onDisplay 0 h = ["GET", "204 No Content", "/"].map (some ∘ QString.ofString)) ∧
      Displays 1 h ∧ Silent 1 h := by
  obtain ⟨h, a, hrun, ⟨hlength, hposted, hall⟩, htold, huntold, hshown⟩ :=
    exists_run_of_follow relayedAndTunnelled
    (fun h a ↦ (a.activities.length = 2 ∧ a.posted = [] ∧ ∀ activity ∈ a.activities,
        activity.machine.pending = [] ∧ activity.actions = []) ∧
      onDisplay 0 h = cellsOf (clientReads (transactionHistory 0 h)).flatten
        (remoteReads (transactionHistory 0 h)).flatten ∧
      onDisplay 1 h ≠ cellsOf (clientReads (transactionHistory 1 h)).flatten
        (remoteReads (transactionHistory 1 h)).flatten ∧
      onDisplay 0 h = ["GET", "204 No Content", "/"].map (some ∘ QString.ofString))
    (by decide +kernel)
  have hfew : Few a := by
    rw [Few, hlength]
    decide
  have hquiet : Quiescent a := ⟨hall, hposted⟩
  have hfirst : Displays 0 h :=
    displays_of_run hrun hfew hquiet (List.getElem?_eq_getElem (by omega))
  have hsecond : Displays 1 h :=
    displays_of_run hrun hfew hquiet (List.getElem?_eq_getElem (by omega))
  exact ⟨h, a, hrun, hquiet, ⟨hfirst, hfirst.upToDate.1 htold, hshown⟩, hsecond,
    not_not.1 fun hnot ↦ huntold (hsecond.upToDate.2 hnot)⟩

end Application

end Amanuensis
