import Amanuensis.App.FinalState
import Amanuensis.Transaction.Lifecycle

/-!
# Last states that are missed

What is not shown stays hidden: once the model is disconnected and no slot is queued, the row of the
transaction is not announced again, whatever state it enters or has entered
(`not_showsFinal_of_unseen`). And a tunnel that is closed in silence has emitted nothing a slot is
connected to (`not_showsFinal_of_silent`). Together with `showsFinal_of_endsSeen` this says exactly
when the last state is shown (`showsFinal_iff`).
-/

open LabelledSystem

namespace Amanuensis

namespace Window

open HttpMessageParser (asciiBytes)
open Transaction (IsFinal effectOf isPlain Preliminary endsPlainRequest)

variable {id : ℤ} {w w' : Window} {l : Label} {h : List (Move Window Label)} {before : List Change}

/-! ### Hidden rows -/

/-- Since `before` was logged the row has not been announced, and no slot is queued. -/
structure Hidden (id : ℤ) (before : List Change) (w : Window) : Prop where
  queue : w.queue = []
  log : ∃ after, w.log = before ++ after ∧
    ∀ row, w.model.transactions[row]? = some id → .dataChanged row ∉ after

/-- Changes that do not announce the row keep it hidden. -/
theorem Hidden.frame (changes : List Change) (hw : Hidden id before w) (hqueue : w'.queue = [])
    (hlog : w'.log = w.log ++ changes)
    (hrows : ∀ row, w'.model.transactions[row]? = some id →
      w.model.transactions[row]? = some id ∧ .dataChanged row ∉ changes) :
    Hidden id before w' := by
  obtain ⟨after, heq, hafter⟩ := hw.log
  refine ⟨hqueue, after ++ changes, by rw [hlog, heq, List.append_assoc], fun row hrow ↦ ?_⟩
  obtain ⟨hrow, hchanges⟩ := hrows row hrow
  exact List.not_mem_append (hafter row hrow) hchanges

/-- **One step** keeps the row hidden, if it does not emit a signal that is connected. -/
theorem Hidden.step (hhidden : Hidden id before w) (hid : id ∈ w.model.transactions)
    (hstep : (system id).step w l w')
    (hslots : ∀ signal rest, w.actions = .emit signal :: rest → id ∈ w.model.connected →
      TransactionModel.connections signal = 0) : Hidden id before w' := by
  cases l with
  | complete tl =>
    obtain ⟨-, m', -, rfl⟩ := hstep
    exact hhidden.frame [] hhidden.queue (by simp) fun row hrow ↦ ⟨hrow, List.not_mem_nil⟩
  | act =>
    obtain ⟨state, rest, -, rfl⟩ | ⟨signal, rest, hactions, rfl⟩ := act_cases hstep
    · exact hhidden.frame [.entered state] hhidden.queue rfl fun row hrow ↦ ⟨hrow, by simp⟩
    · refine hhidden.frame [] ?_ (by simp) fun row hrow ↦ ⟨hrow, List.not_mem_nil⟩
      show w.queue ++ _ = []
      rw [hhidden.queue, List.nil_append]
      split
      next hconnected => rw [hslots signal rest hactions hconnected, List.replicate_zero]
      next => rfl
  | update =>
    obtain ⟨signal, rest, hqueue, -⟩ := update_cases hstep
    exact nomatch hqueue.symm.trans hhidden.queue
  | start id' =>
    obtain ⟨⟨-, hlt⟩, rfl⟩ := hstep
    refine hhidden.frame [] hhidden.queue (by simp) fun row hrow ↦ ⟨?_, List.not_mem_nil⟩
    -- the row that is added is not that of the transaction
    replace hrow : (w.model.transactions ++ [id'])[row]? = some id := hrow
    rw [List.getElem?_append] at hrow
    split at hrow
    next => exact hrow
    next =>
      obtain rfl := List.mem_singleton.1 (List.mem_of_getElem? hrow)
      exact absurd (hlt id hid) (lt_irrefl id)
  | test =>
    obtain ⟨final, rest, -, ⟨-, rfl⟩ | ⟨-, rfl⟩⟩ := test_cases hstep
    all_goals exact hhidden.frame [] hhidden.queue (by simp) fun row hrow ↦ ⟨hrow, List.not_mem_nil⟩
  | testOther state =>
    obtain ⟨id', final, rest, -, -, rfl | rfl⟩ := testOther_cases hstep
    all_goals exact hhidden.frame [] hhidden.queue (by simp) fun row hrow ↦ ⟨hrow, List.not_mem_nil⟩
  | updateOther id' state =>
    obtain ⟨⟨-, hne⟩, rfl⟩ := hstep
    have hrows : (updated id' state w).model.transactions = w.model.transactions :=
      TransactionModel.transactionUpdated_transactions
    refine hhidden.frame (w.model.transactionUpdated id' state).2.1 hhidden.queue rfl
      fun row hrow ↦ ?_
    rw [hrows] at hrow
    refine ⟨hrow, ?_⟩
    obtain hnone | ⟨row', hrow', hsome⟩ :=
      TransactionModel.transactionUpdated_cases id' state w.model
    · rw [hnone]
      exact List.not_mem_nil
    · rw [hsome]
      simp only [List.mem_cons, Change.dataChanged.injEq, reduceCtorEq, List.not_mem_nil, or_false]
      rintro rfl
      exact hne (Option.some.inj (hrow'.symm.trans hrow))

/-! ### A state that goes unseen -/

/-- A state has been entered unseen, and the model is not connected. -/
def Missed (id : ℤ) (w : Window) : Prop :=
  id ∉ w.model.connected ∧ ∃ before state, Hidden id (before ++ [.entered state]) w

/-- A failure goes unseen, or a slot gives up unseen. -/
def Unseen (id : ℤ) (t : Move Window Label) : Prop := FailsUnseen id t ∨ DisconnectsUnseen id t

theorem missed_of_failsUnseen (hunseen : FailsUnseen id ⟨w, l, w'⟩)
    (hstep : (system id).step w l w') : Missed id w' := by
  obtain ⟨rfl, hhead, hid, hqueue⟩ := hunseen
  obtain ⟨state, rest, hactions, rfl⟩ | ⟨signal, rest, hactions, -⟩ := act_cases hstep
  all_goals
    replace hhead : w.actions.head? = some (.enter .error) := hhead
    rw [hactions] at hhead
  · exact ⟨hid, w.log, state, hqueue, [], by simp, fun row hrow ↦ List.not_mem_nil⟩
  · exact nomatch hhead

theorem missed_of_disconnectsUnseen (hunseen : DisconnectsUnseen id ⟨w, l, w'⟩)
    (hstep : (system id).step w l w') : Missed id w' := by
  obtain ⟨⟨rfl, hhead⟩, ⟨state, hlast⟩, hqueue⟩ := hunseen
  obtain ⟨final, rest, htests, ⟨-, rfl⟩ | ⟨hne, -⟩⟩ := test_cases hstep
  · obtain ⟨before, hlog⟩ := List.getLast?_eq_some_iff.1 hlast
    exact ⟨TransactionModel.not_mem_disconnect_connected, before, state, hqueue, [],
      by simpa using hlog, fun row hrow ↦ List.not_mem_nil⟩
  · replace hhead : w.tests.head? = some (id, w.state) := hhead
    rw [htests] at hhead
    exact absurd (congrArg Prod.snd (Option.some.inj hhead)).symm hne

theorem missed_of_unseen (hunseen : Unseen id ⟨w, l, w'⟩) (hstep : (system id).step w l w') :
    Missed id w' :=
  hunseen.elim (missed_of_failsUnseen · hstep) (missed_of_disconnectsUnseen · hstep)

/-- The model stays disconnected. -/
theorem Missed.step (hmissed : Missed id w) (hw : Watched id h w)
    (hstep : (system id).step w l w') : Missed id w' := by
  obtain ⟨hid, before, state, hhidden⟩ := hmissed
  refine ⟨?_, before, state, hhidden.step hw.mem hstep fun _ _ _ hconnected ↦ absurd hconnected hid⟩
  cases l with
  | complete tl =>
    obtain ⟨-, m', -, rfl⟩ := hstep
    exact hid
  | act =>
    obtain ⟨state, rest, -, rfl⟩ | ⟨signal, rest, -, rfl⟩ := act_cases hstep
    all_goals exact hid
  | update =>
    obtain ⟨signal, rest, hqueue, -⟩ := update_cases hstep
    exact nomatch hqueue.symm.trans hhidden.queue
  | test =>
    obtain ⟨final, rest, -, ⟨-, rfl⟩ | ⟨-, rfl⟩⟩ := test_cases hstep
    · exact TransactionModel.not_mem_disconnect_connected
    · exact hid
  | start id' =>
    obtain ⟨⟨-, hlt⟩, rfl⟩ := hstep
    have hne : id ≠ id' := (hlt id hw.mem).ne
    exact fun hmem ↦ hid (Finset.mem_of_mem_insert_of_ne hmem hne)
  | updateOther id' state =>
    obtain ⟨-, rfl⟩ := hstep
    have hconnected : (updated id' state w).model.connected = w.model.connected :=
      TransactionModel.transactionUpdated_connected
    exact hconnected ▸ hid
  | testOther state =>
    obtain ⟨id', final, rest, -, hne, rfl | rfl⟩ := testOther_cases hstep
    · exact fun hmem ↦ hid ((TransactionModel.mem_disconnect_connected hne.symm).1 hmem)
    · exact hid

theorem missed_of_run (hrun : (system id).Run h w) (hunseen : ∃ t ∈ h, Unseen id t) :
    Missed id w := by
  induction hrun with
  | start => exact absurd hunseen (by simp)
  | move hrun hstep ih =>
    obtain ⟨t, hmem, ht⟩ := hunseen
    obtain hmem | hmem := List.mem_append.1 hmem
    · exact (ih ⟨t, hmem, ht⟩).step (watched_of_run hrun) hstep
    · obtain rfl := List.mem_singleton.1 hmem
      exact missed_of_unseen ht hstep

/-- **What goes unseen** is not shown. -/
theorem not_showsFinal_of_unseen (hrun : (system id).Run h w) (hunseen : ∃ t ∈ h, Unseen id t) :
    ¬ ShowsFinal id w := by
  obtain ⟨-, start, state, -, later, hlog, hlater⟩ := missed_of_run hrun hunseen
  rintro ⟨before, row, after, heq, hrow, hafter⟩
  have hsplit : start ++ .entered state :: later = before ++ .dataChanged row :: after := by
    rw [← heq, hlog, List.append_assoc]
    rfl
  obtain ⟨zs, -, hzs⟩ | ⟨zs, -, hzs⟩ := List.append_eq_append_iff.1 hsplit
  · cases zs with
    | nil => exact nomatch (List.cons.inj hzs).1
    | cons z zs =>
      exact hlater row hrow ((List.cons.inj hzs).2 ▸ List.mem_append_right _ List.mem_cons_self)
  · cases zs with
    | nil => exact nomatch (List.cons.inj hzs).1
    | cons z zs =>
      exact hafter state ((List.cons.inj hzs).2 ▸ List.mem_append_right _ List.mem_cons_self)

/-! ### A tunnel that ends in silence -/

section

variable {m m' : Machine} {tl : Transaction.Label}

/-- A response is on its way to the client, or has been written. -/
def Relaying (m : Machine) : Prop :=
  (∃ op ∈ m.pending, isPlain op = true) ∨
    m.pending = [] ∧ m.tx.notificationState = .responseComplete

/-- A plain operation that goes on starts a plain one. -/
theorem any_isPlain_of_proceed {ops : List Operation} (hplain : isPlain tl.operation = true)
    (he : effectOf m tl = .proceed ops) : ops.any isPlain = true := by
  obtain ⟨op, c⟩ := tl
  cases op with
  | resolve callback | connect callback => cases callback <;> grind [effectOf, isPlain]
  | _ => grind [effectOf, isPlain]

/-- A request that has ended is sent on, unless it fails. -/
theorem effectOf_of_endsPlainRequest (hends : endsPlainRequest m tl)
    (hfail : ∀ ec, effectOf m tl ≠ .fail ec) :
    effectOf m tl = .proceed [.resolve .request] := by
  obtain ⟨op, c⟩ := tl
  obtain ⟨rfl, hok, hvalid, hmethod⟩ := hends
  have heof : c.ec ≠ .eof := by
    rintro heof
    rw [heof] at hok
    exact absurd hok (by decide)
  grind [effectOf]

theorem relaying_of_endsPlainRequest (hm : Transaction.Control m)
    (hstep : Transaction.system.step m tl m') (hends : endsPlainRequest m tl)
    (hfail : ∀ ec, effectOf m tl ≠ .fail ec) : Relaying m' := by
  have hpending := hm.pending hstep (by rw [hends.1]; rfl)
  rw [effectOf_of_endsPlainRequest hends hfail] at hpending
  exact .inl ⟨.resolve .request, by rw [hpending]; exact List.mem_singleton_self _, rfl⟩

/-- **One operation** on the way to a response. -/
theorem Relaying.step (hrelaying : Relaying m) (hm : Transaction.Control m)
    (hstep : Transaction.system.step m tl m') (hfail : ∀ ec, effectOf m tl ≠ .fail ec) :
    Relaying m' := by
  obtain ⟨op, hop, hplain⟩ | ⟨hnil, -⟩ := hrelaying
  · -- outside the tunnel the operation is the only one pending
    have hdirection : op.direction = none := by cases op <;> first | rfl | exact nomatch hplain
    obtain ⟨hsingle, -, hexpected⟩ := hm.stage.expected hop hdirection
    obtain rfl : tl.operation = op := List.mem_singleton.1 (hsingle ▸ hstep.1)
    have hpending := hm.pending hstep hdirection
    cases he : effectOf m tl with
    | proceed ops =>
      rw [he] at hpending
      exact .inl (hpending ▸ List.any_eq_true.1 (any_isPlain_of_proceed hplain he))
    | finish =>
      obtain ⟨notes, -, happlied⟩ := hm.applied hstep he
      obtain ⟨bytes, hsend, -⟩ := Transaction.effectOf_eq_finish he
      rw [hsend] at hexpected
      rw [he] at hpending
      exact .inr ⟨hpending, happlied.state.trans hexpected.2⟩
    | release =>
      obtain ⟨d, hread, -⟩ := Transaction.effectOf_eq_release he
      rw [hread] at hplain
      exact nomatch hplain
    | fail ec => exact absurd he (hfail ec)
  · exact absurd (hnil ▸ hstep.1) List.not_mem_nil

/-- What is emitted has been recorded. -/
theorem exists_signal_of_emit {signal : Signal} {s : NotificationState} {events : List Event}
    (hmem : .emit signal ∈ Transaction.actionsOf s events) :
    ∃ state error, .signal signal state error ∈ events := by
  induction events generalizing s with
  | nil => exact absurd hmem List.not_mem_nil
  | cons e events ih =>
    obtain hmem | hmem := List.mem_append.1 hmem
    · obtain hmem | hmem := List.mem_append.1 hmem
      · rw [Transaction.approach] at hmem
        split_ifs at hmem <;> simp at hmem
      · cases e with
        | signal s' state error =>
          obtain rfl : signal = s' := by simpa [Event.signal?] using hmem
          exact ⟨state, error, List.mem_cons_self⟩
        | _ => exact absurd hmem List.not_mem_nil
    · obtain ⟨state, error, hmem⟩ := ih hmem
      exact ⟨state, error, List.mem_cons_of_mem _ hmem⟩

/-- Before the end of the request a handler emits nothing but the start, unless it fails. -/
theorem eq_transactionStart_of_emit {signal : Signal} (hpre : Preliminary m)
    (hpre' : Preliminary m') (hm : Transaction.Control m)
    (hstep : Transaction.system.step m tl m') (hfail : ∀ ec, effectOf m tl ≠ .fail ec)
    (hmem : .emit signal ∈ Transaction.actions m m') : signal = .transactionStart := by
  obtain ⟨state, error, hevent⟩ := exists_signal_of_emit hmem
  obtain ⟨notes, -, hends, -⟩ := Transaction.exists_notes_of_actions hm hstep rfl
  -- an end is emitted by a failure, or by a response that has been written
  have hnil : (effectOf m tl).ends m.tx = [] := by
    cases he : effectOf m tl with
    | proceed | release => rfl
    | finish =>
      obtain ⟨bytes, hsend, -⟩ := Transaction.effectOf_eq_finish he
      have hplain := hpre.pending tl.operation hstep.1
      rw [hsend] at hplain
      exact nomatch hplain
    | fail ec => exact absurd he (hfail ec)
  have hquiet := List.filter_eq_nil_iff.1 (hends.trans hnil) _ hevent
  -- any other signal is a note, and those are preliminary
  have hnote (hnote : (Event.signal signal state error).isNote = true) :
      Transaction.isPreliminary (.signal signal state error) :=
    hpre'.notes _ (List.mem_filter.2 ⟨List.mem_of_mem_drop hevent, hnote⟩)
  cases signal with
  | transactionStart => rfl
  | transactionFailed | transactionComplete => exact absurd rfl hquiet
  | _ => simpa [Transaction.isPreliminary, Event.isEarly] using hnote rfl

end

/-- Nothing has been emitted that a slot is connected to. -/
structure Unheard (id : ℤ) (w : Window) : Prop where
  preliminary : Preliminary w.worker
  hidden : Hidden id [] w
  emit : ∀ signal, .emit signal ∈ w.actions → signal = .transactionStart

/-- Outside the handlers nothing is heard. -/
theorem Unheard.step (hw : Unheard id w) (hid : id ∈ w.model.transactions)
    (hstep : (system id).step w l w') (hworker : w'.worker = w.worker)
    (hactions : w'.actions <:+ w.actions) : Unheard id w' where
  preliminary := hworker ▸ hw.preliminary
  hidden := hw.hidden.step hid hstep fun signal rest hactions _ ↦ by
    obtain rfl := hw.emit signal (hactions ▸ List.mem_cons_self)
    rfl
  emit signal hmem := hw.emit signal (hactions.subset hmem)

theorem worker_of_step (hstep : (system id).step w l w') (hl : ∀ tl, l ≠ .complete tl) :
    w'.worker = w.worker ∧ w'.actions <:+ w.actions := by
  cases l with
  | complete tl => exact absurd rfl (hl tl)
  | act =>
    obtain ⟨_, rest, hactions, rfl⟩ | ⟨_, rest, hactions, rfl⟩ := act_cases hstep
    all_goals exact ⟨rfl, hactions ▸ List.suffix_cons _ _⟩
  | update =>
    obtain ⟨signal, rest, -, rfl⟩ := update_cases hstep
    exact ⟨rfl, List.suffix_rfl⟩
  | test =>
    obtain ⟨final, rest, -, ⟨-, rfl⟩ | ⟨-, rfl⟩⟩ := test_cases hstep
    all_goals exact ⟨rfl, List.suffix_rfl⟩
  | start | updateOther =>
    obtain ⟨-, rfl⟩ := hstep
    exact ⟨rfl, List.suffix_rfl⟩
  | testOther =>
    obtain ⟨id', final, rest, -, -, rfl | rfl⟩ := testOther_cases hstep
    all_goals exact ⟨rfl, List.suffix_rfl⟩

/-- **In a run without failures** a response is on its way, or nothing has been heard. -/
theorem relaying_or_unheard_of_run (hrun : (system id).Run h w) (hfails : ∀ t ∈ h, ¬ Fails t) :
    Relaying w.worker ∨ Unheard id w := by
  refine hrun.history_induction (P := fun t ↦ ¬ Fails t)
    (I := fun _ w ↦ Relaying w.worker ∨ Unheard id w) (fun w hw ↦ ?_)
    (fun h w l w' hrun ih hstep hfail ↦ ?_) hfails
  · obtain ⟨model, m, -, -, hm, rfl⟩ := hw
    obtain rfl := Transaction.init_iff.1 hm
    refine .inr ⟨Transaction.preliminary_begun, ⟨rfl, [], rfl, fun _ _ ↦ List.not_mem_nil⟩, ?_⟩
    intro signal hmem
    exact Action.emit.inj (List.mem_singleton.1 hmem)
  have hw := watched_of_run hrun
  cases l with
  | complete tl =>
    have hhidden := fun (hhidden : Hidden id [] w) ↦ hhidden.step hw.mem hstep
    obtain ⟨hactions, m', hstep', rfl⟩ := hstep
    replace hfail (ec : ErrorCode) : effectOf w.worker tl ≠ .fail ec :=
      fun he ↦ hfail ⟨tl, ec, rfl, he⟩
    obtain hrelaying | hunheard := ih
    · exact .inl (hrelaying.step hw.control hstep' hfail)
    · obtain hends | hends := em (endsPlainRequest w.worker tl)
      · exact .inl (relaying_of_endsPlainRequest hw.control hstep' hends hfail)
      · have hpre := hunheard.preliminary.step hw.control hstep' hends
        refine .inr ⟨hpre, hhidden hunheard.hidden fun _ _ h ↦ ?_, fun signal ↦ ?_⟩
        · exact nomatch hactions.symm.trans h
        · exact eq_transactionStart_of_emit hunheard.preliminary hpre hw.control hstep' hfail
  | act | update | test | start | updateOther | testOther =>
    obtain ⟨hworker, hactions⟩ := worker_of_step hstep fun _ ↦ nofun
    exact ih.imp (fun hrelaying ↦ hworker ▸ hrelaying)
      fun hunheard ↦ hunheard.step hw.mem hstep hworker hactions

/-- **A tunnel that ends in silence** is not shown. -/
theorem not_showsFinal_of_silent (hrun : (system id).Run h w) (hquiet : Quiescent w)
    (hsilent : Silent h) : ¬ ShowsFinal id w := by
  have hw := watched_of_run hrun
  obtain ⟨⟨t, ht, hcloses⟩, hfails⟩ := hsilent
  obtain (⟨op, hop, -⟩ | ⟨-, hstate⟩) | ⟨-, hhidden, -⟩ := relaying_or_unheard_of_run hrun hfails
  · exact absurd (hquiet.pending ▸ hop) List.not_mem_nil
  · -- the tunnel is closed in a state that is not final
    obtain ⟨-, hnone, -⟩ | ⟨-, -, u, hu, hfail⟩ | ⟨-, -, -, hnone, -⟩ | ⟨-, hfinal, -⟩ := hw.phase
    · exact absurd hcloses (hnone t ht)
    · exact absurd hfail (hfails u hu)
    · exact absurd hcloses (hnone t ht)
    · exact absurd (.inr hstate) hfinal
  · rintro ⟨before, row, after, heq, hrow, -⟩
    obtain ⟨later, hlog, hlater⟩ := hhidden.log
    refine hlater row hrow ?_
    rw [← List.nil_append later, ← hlog, heq]
    exact List.mem_append_right _ List.mem_cons_self

/-- **When the last state is shown**: exactly if no failure goes unseen, no slot gives up unseen and
no tunnel ends in silence. -/
theorem showsFinal_iff (hrun : (system id).Run h w) (hquiet : Quiescent w) :
    ShowsFinal id w ↔ EndsSeen id h := by
  refine ⟨fun hshows ↦ ⟨fun t ht hunseen ↦ ?_, fun t ht hunseen ↦ ?_, fun hcloses ↦ ?_⟩,
    showsFinal_of_endsSeen hrun hquiet⟩
  · exact not_showsFinal_of_unseen hrun ⟨t, ht, .inl hunseen⟩ hshows
  · exact not_showsFinal_of_unseen hrun ⟨t, ht, .inr hunseen⟩ hshows
  · by_contra hfails
    have hnone : ∀ t ∈ h, ¬ Fails t := fun t ht hfail ↦ hfails ⟨t, ht, hfail⟩
    exact not_showsFinal_of_silent hrun hquiet ⟨hcloses, hnone⟩ hshows

/-! ### Runs by computation -/

/-- The window after a step, if there is one. -/
def next (id : ℤ) (w : Window) : Label → Option Window
  | .complete tl =>
    if w.actions = [] then
      (Transaction.next w.worker tl).map fun m ↦
        { w with worker := m, actions := Transaction.actions w.worker m }
    else none
  | .act => w.act id
  | .update => w.update id
  | .test => w.test id
  | .start id' =>
    if w.tests = [] ∧ ∀ i ∈ w.model.transactions, i < id' then
      some { w with model := w.model.transactionStarted id' }
    else none
  | .updateOther id' state =>
    if w.tests = [] ∧ id' ≠ id then some (updated id' state w) else none
  | .testOther state => w.testOther id state

theorem step_of_next (hnext : next id w l = some w') : (system id).step w l w' := by
  cases l with
  | complete tl =>
    rw [next] at hnext
    split_ifs at hnext with hactions
    obtain ⟨m, hm, rfl⟩ := Option.map_eq_some_iff.1 hnext
    exact ⟨hactions, m, Transaction.step_of_next hm, rfl⟩
  | act | update | test | testOther => exact hnext
  | start id' =>
    rw [next] at hnext
    split_ifs at hnext with hlt
    exact ⟨hlt, (Option.some.inj hnext).symm⟩
  | updateOther id' state =>
    rw [next] at hnext
    split_ifs at hnext with hne
    exact ⟨hne, (Option.some.inj hnext).symm⟩

instance (t : Move Window Label) : Decidable (FailsUnseen id t) :=
  inferInstanceAs (Decidable (_ ∧ _))

instance (t : Move Window Label) : Decidable (DisconnectsUnseen id t) :=
  decidable_of_iff
    ((t.label = .test ∧ t.source.tests.head? = some (id, t.source.state)) ∧
      (t.source.log.getLast?.any fun c ↦ match c with | .entered _ => true | _ => false) = true ∧
        t.source.queue = [])
    (and_congr_right fun _ ↦ and_congr_left fun _ ↦ by
      rcases t.source.log.getLast? with - | ⟨_⟩ | _ | _ <;> simp)

instance : (t : Move Window Label) → Decidable (Closes t)
  | ⟨w, .complete tl, w'⟩ =>
    decidable_of_iff (effectOf w.worker tl = .release)
      (closes_iff (t := ⟨w, .complete tl, w'⟩) rfl).symm
  | ⟨_, .act, _⟩ | ⟨_, .update, _⟩ | ⟨_, .test, _⟩ | ⟨_, .start _, _⟩ | ⟨_, .updateOther _ _, _⟩
  | ⟨_, .testOther _, _⟩ => .isFalse fun ⟨_, hl, _⟩ ↦ nomatch hl

/-- The labels of a number of slots, with so many comparisons each. -/
def slots (n tests : ℕ) : List Label :=
  (List.replicate n (.update :: List.replicate tests .test)).flatten

/-- The labels of a handler. -/
def handled (tl : Transaction.Label) (actions : ℕ) : List Label :=
  .complete tl :: List.replicate actions .act

/-- A list of one transaction. -/
theorem exists_run_of_follow (labels : List Label)
    (test : List (Move Window Label) → Window → Prop) [∀ h w, Decidable (test h w)]
    (htest : (follow (next 1) (started 1 {} Transaction.begun) labels).any
      (fun r ↦ test r.1 r.2) = true) :
    ∃ h w, (system 1).Run h w ∧ test h w := by
  refine Run.exists_of_follow (fun _ _ _ ↦ step_of_next) ?_ labels test htest
  exact ⟨{}, _, .nil, List.forall_mem_nil _, Transaction.init_iff.2 rfl, rfl⟩

/-- The client disconnects, and the failure is shown. -/
theorem clientDisconnected_showsFinal :
    ∃ h w, (system 1).Run h w ∧ Quiescent w ∧ ShowsFinal 1 w := by
  obtain ⟨h, w, hrun, ⟨hpending, hactions, hqueue⟩, hfails, hgivesUp, hcloses⟩ :=
    exists_run_of_follow
    (.act :: handled ⟨.readClientRequest, { ec := .eof }⟩ 3 ++ slots 2 1)
    (fun h w ↦ (w.worker.pending = [] ∧ w.actions = [] ∧ w.queue = []) ∧
      (∀ t ∈ h, ¬ FailsUnseen 1 t) ∧ (∀ t ∈ h, ¬ DisconnectsUnseen 1 t) ∧ ∀ t ∈ h, ¬ Closes t)
    (by decide +kernel)
  have hquiet : Quiescent w := ⟨hpending, hactions, hqueue⟩
  exact ⟨h, w, hrun, hquiet, (showsFinal_iff hrun hquiet).2
    ⟨hfails, hgivesUp, fun ⟨t, ht, hclose⟩ ↦ absurd hclose (hcloses t ht)⟩⟩

/-- A request is sent to the remote, which answers it in one read. -/
def answered (actions : ℕ) : List Label :=
  .act :: handled
      ⟨.readClientRequest, { data := asciiBytes "GET / HTTP/1.1\r\nHost: a\r\n\r\n" }⟩ 4 ++
    handled ⟨.resolve .request, {}⟩ 0 ++ handled ⟨.connect .request, {}⟩ 0 ++
    handled ⟨.sendRequest (asciiBytes "GET / HTTP/1.1\r\nHost: a\r\n\r\n"), { written := 27 }⟩ 0 ++
    handled ⟨.readRemoteResponse,
      { data := asciiBytes "HTTP/1.1 204 No Content\r\n\r\n" }⟩ actions

/-- The response is read and its slots run; then it cannot be written to the client. Or the last
slot has announced the row before the response is complete and reads the state after it, and then
the response is written. -/
theorem unwrittenResponse_not_showsFinal :
    (∃ h w, (system 1).Run h w ∧ Quiescent w ∧ w.state = .error ∧ ¬ ShowsFinal 1 w) ∧
      ∃ h w, (system 1).Run h w ∧ Quiescent w ∧ w.state = .responseComplete ∧
        ¬ ShowsFinal 1 w := by
  constructor
  · obtain ⟨h, w, hrun, ⟨hpending, hactions, hqueue⟩, hstate, t, ht, hunseen⟩ :=
      exists_run_of_follow
      (answered 5 ++ slots 3 2 ++
        handled ⟨.sendResponse (asciiBytes "HTTP/1.1 204 No Content\r\n\r\n"),
          { ec := { value := 32 } }⟩ 3)
      (fun h w ↦ (w.worker.pending = [] ∧ w.actions = [] ∧ w.queue = []) ∧ w.state = .error ∧
        ∃ t ∈ h, FailsUnseen 1 t)
      (by decide +kernel)
    exact ⟨h, w, hrun, ⟨hpending, hactions, hqueue⟩, hstate,
      not_showsFinal_of_unseen hrun ⟨t, ht, .inl hunseen⟩⟩
  · obtain ⟨h, w, hrun, ⟨hpending, hactions, hqueue⟩, hstate, t, ht, hunseen⟩ :=
      exists_run_of_follow
      (answered 4 ++ slots 2 2 ++ [.update, .act, .test, .test] ++
        handled ⟨.sendResponse (asciiBytes "HTTP/1.1 204 No Content\r\n\r\n"),
          { written := 27 }⟩ 1)
      (fun h w ↦ (w.worker.pending = [] ∧ w.actions = [] ∧ w.queue = []) ∧
        w.state = .responseComplete ∧ ∃ t ∈ h, DisconnectsUnseen 1 t)
      (by decide +kernel)
    exact ⟨h, w, hrun, ⟨hpending, hactions, hqueue⟩, hstate,
      not_showsFinal_of_unseen hrun ⟨t, ht, .inr hunseen⟩⟩

end Window

end Amanuensis
