import Amanuensis.App.Application

/-!
# Clients, transactions and rows

Every connection that the server makes waits for the GUI thread or has its own transaction
(`serves_of_run`), and the server accepts clients until an accept gives up, and never after that.
The transactions are numbered in the order of their connections and listed in that order, each in
the row before its number, so that a slot finds the row of its transaction (`listed_of_run`): the
ids come round after `2 ^ 31 - 1` of them.
-/

open LabelledSystem

namespace Amanuensis

namespace Application

variable {a a' : Application} {l : Label} {h : List (Move Application Label)}
  {t : Move Application Label}

/-! ### Accepting -/

/-- The handler of an accept gives up. -/
def givesUp (t : Move Application Label) : Bool :=
  match t.label with
  | .serve (.accept ec) => t.source.server.givesUp ec
  | _ => false

/-- The handler of an accept makes a connection. -/
def accepts (t : Move Application Label) : Bool :=
  match t.label with
  | .serve (.accept ec) => !t.source.server.givesUp ec
  | _ => false

/-- **How clients are served.** -/
structure Serves (h : List (Move Application Label)) (a : Application) : Prop where
  /-- One accept is outstanding, until one gives up. -/
  outstanding : a.server.accepting = if h.any givesUp then 0 else 1
  /-- None completes after that. -/
  last : ∀ h₁ t h₂, h = h₁ ++ t :: h₂ → givesUp t = true →
    ∀ u ∈ h₂, ∀ ec, u.label ≠ .serve (.accept ec)
  made : a.server.connections = h.countP accepts
  /-- Every connection waits for the GUI thread, or has a transaction. -/
  started : a.posted.count .clientConnected + a.activities.length = h.countP accepts

theorem any_concat_of_false (hgives : givesUp t = false) :
    (h ++ [t]).any givesUp = h.any givesUp := by
  simp [hgives]

theorem countP_concat_of_false (haccepts : accepts t = false) :
    (h ++ [t]).countP accepts = h.countP accepts := by
  simp [haccepts]

theorem countP_concat_of_true (haccepts : accepts t = true) :
    (h ++ [t]).countP accepts = h.countP accepts + 1 := by
  simp [haccepts]

/-- What a slot is queued for is no connection. -/
theorem count_slots (id : ℤ) (signal : Signal) (connected : Prop) [Decidable connected] :
    (if connected then List.replicate (TransactionModel.connections signal)
      (Posted.transactionUpdated id signal) else []).count .clientConnected = 0 := by
  split_ifs
  · exact List.count_eq_zero.2 fun hmem ↦ absurd (List.eq_of_mem_replicate hmem) (by simp)
  · rfl

/-- The counters of a run. -/
structure Counts (h : List (Move Application Label)) (a : Application) : Prop where
  outstanding : a.server.accepting = if h.any givesUp then 0 else 1
  made : a.server.connections = h.countP accepts
  started : a.posted.count .clientConnected + a.activities.length = h.countP accepts

/-- A step without an accept keeps the counters. -/
theorem Counts.keep (hcounts : Counts h a) (hgives : givesUp t = false)
    (haccepts : accepts t = false) (haccepting : a'.server.accepting = a.server.accepting)
    (hconnections : a'.server.connections = a.server.connections)
    (hstarted : a'.posted.count .clientConnected + a'.activities.length =
      a.posted.count .clientConnected + a.activities.length) : Counts (h ++ [t]) a' where
  outstanding := by rw [haccepting, hcounts.outstanding, any_concat_of_false hgives]
  made := by rw [hconnections, hcounts.made, countP_concat_of_false haccepts]
  started := by rw [hstarted, hcounts.started, countP_concat_of_false haccepts]

/-- **One step of the counters.** -/
theorem Counts.step (hcounts : Counts h a) (hdoes : Does a l a') :
    Counts (h ++ [⟨a, l, a'⟩]) a' := by
  cases hdoes with
  | serve l server hnext =>
    cases l with
    | signal =>
      obtain rfl := Server.signal_eq hnext
      exact hcounts.keep rfl rfl rfl rfl (by simp)
    | accept ec =>
      obtain ⟨hsome, ⟨hgives, rfl⟩ | ⟨hgives, rfl⟩⟩ := Server.accept_cases hnext
      · -- the last accept: it had been the only one
        have hone : a.server.accepting = 1 := by
          have houtstanding := hcounts.outstanding
          split_ifs at houtstanding
          · exact absurd houtstanding hsome
          · exact houtstanding
        refine ⟨?_, ?_, ?_⟩
        · show a.server.accepting - 1 = _
          rw [hone, if_pos (by simp [givesUp, hgives])]
        · show a.server.connections = _
          rw [hcounts.made, countP_concat_of_false (by simp [accepts, hgives])]
        · rw [countP_concat_of_false (by simp [accepts, hgives]), ← hcounts.started]
          simp
      · have haccepts (a' : Application) : accepts ⟨a, .serve (.accept ec), a'⟩ = true := by
          simp [accepts, hgives]
        refine ⟨?_, ?_, ?_⟩
        · rw [any_concat_of_false (by simp [givesUp, hgives])]
          exact hcounts.outstanding
        · rw [countP_concat_of_true (haccepts _), ← hcounts.made]
        · rw [countP_concat_of_true (haccepts _), ← hcounts.started]
          show (a.posted ++ List.replicate (a.server.connections + 1 - a.server.connections)
            Posted.clientConnected).count .clientConnected + a.activities.length = _
          rw [Nat.add_sub_cancel_left, List.replicate_one, List.count_append,
            List.count_singleton_self]
          omega
  | run | close => exact hcounts.keep rfl rfl rfl rfl rfl
  | connected rest hposted =>
    refine hcounts.keep rfl rfl rfl rfl ?_
    show rest.count .clientConnected + (a.activities ++ [_]).length = _
    rw [hposted, List.count_cons_self, List.length_append, List.length_singleton]
    omega
  | updated id s rest hposted =>
    refine hcounts.keep rfl rfl rfl rfl ?_
    rw [hposted, List.count_cons_of_ne (by simp)]
  | test => exact hcounts.keep rfl rfl rfl rfl rfl
  | complete | enter => exact hcounts.keep rfl rfl rfl rfl (by simp)
  | emit =>
    refine hcounts.keep rfl rfl rfl rfl ?_
    rw [List.count_append, count_slots, List.length_set, Nat.add_zero]

theorem counts_of_run (hrun : system.Run h a) : Counts h a := by
  induction hrun with
  | start ha =>
    obtain rfl : _ = ({} : Application) := ha
    exact ⟨rfl, rfl, rfl⟩
  | move _ hstep ih => exact ih.step (does_of_step hstep)

/-- **Every connection is served**, and the server accepts until an accept gives up. -/
theorem serves_of_run (hrun : system.Run h a) : Serves h a := by
  obtain ⟨houtstanding, hmade, hstarted⟩ := counts_of_run hrun
  refine ⟨houtstanding, fun h₁ t h₂ heq hgives u hu ec hlabel ↦ ?_, hmade, hstarted⟩
  obtain ⟨h₃, h₄, rfl⟩ := List.append_of_mem hu
  have hsplit : h = (h₁ ++ t :: h₃) ++ u :: h₄ := by
    rw [heq, List.append_assoc, List.cons_append]
  obtain ⟨hbefore, hstep⟩ := hrun.of_append hsplit
  have hnone : u.source.server.accepting = 0 := by
    rw [(counts_of_run hbefore).outstanding, if_pos (by simp [hgives])]
  rw [hlabel] at hstep
  obtain ⟨server, hnext, -⟩ := Option.map_eq_some_iff.1 hstep
  exact (Server.accept_cases hnext).1 hnone

/-- A run of the application along labels. -/
theorem exists_run_of_follow (labels : List Label)
    (test : List (Move Application Label) → Application → Prop) [∀ h a, Decidable (test h a)]
    (htest : (follow next {} labels).any (fun r ↦ test r.1 r.2) = true) :
    ∃ h a, system.Run h a ∧ test h a :=
  Run.exists_of_follow (fun _ _ _ hnext ↦ hnext) rfl labels test htest

/-- Two clients, of whom one has a transaction; then an accept fails. -/
theorem twoClients_serves :
    ∃ h a, system.Run h a ∧ Serves h a ∧ a.server.connections = 2 ∧ a.activities.length = 1 ∧
      a.server.accepting = 0 := by
  obtain ⟨h, a, hrun, htest⟩ := exists_run_of_follow
    [.serve (.accept {}), .run, .serve (.accept {}), .dispatch, .serve (.accept .eof)]
    (fun _ a ↦ a.server.connections = 2 ∧ a.activities.length = 1 ∧ a.server.accepting = 0)
    (by decide +kernel)
  exact ⟨h, a, hrun, serves_of_run hrun, htest⟩

/-! ### Numbers and rows -/

/-- The id of the transaction that is started after `k` others. -/
def idAt (k : ℕ) : ℤ := (Int32.ofNat (k + 1)).toInt

theorem idAt_eq {k : ℕ} (hk : k + 1 < 2 ^ 31) : idAt k = k + 1 := by
  rw [idAt, Int32.toInt_ofNat_of_lt hk]
  omega

/-- **Transactions are numbered and listed** in the order of their connections. -/
structure Numbered (a : Application) : Prop where
  nextId : a.nextId = Int32.ofNat (a.activities.length + 1)
  ids : a.activities.map Activity.id = (List.range a.activities.length).map idAt
  rows : a.model.transactions = a.activities.map Activity.id
  /-- Slots are queued for transactions in the list. -/
  posted : ∀ id s, .transactionUpdated id s ∈ a.posted → id ∈ a.activities.map Activity.id

/-- A handler that goes on leaves the ids. -/
theorem map_id_set {activities : List Activity} {k : ℕ} {activity activity' : Activity}
    (hget : activities[k]? = some activity) (hid : activity'.id = activity.id) :
    (activities.set k activity').map Activity.id = activities.map Activity.id := by
  obtain ⟨hk, rfl⟩ := List.getElem?_eq_some_iff.1 hget
  have hk' : k < (activities.map Activity.id).length := by simpa using hk
  have hsame : activities.map Activity.id =
      (activities.map Activity.id).set k (activities.map Activity.id)[k] :=
    (List.set_getElem_self hk').symm
  rw [List.map_set, hid, hsame, List.set_set, List.getElem_map]

/-- A step that leaves the ids and the rows. -/
theorem Numbered.keep (hnumbered : Numbered a) (hnextId : a'.nextId = a.nextId)
    (hids : a'.activities.map Activity.id = a.activities.map Activity.id)
    (hrows : a'.model.transactions = a.model.transactions)
    (hposted : ∀ id s, .transactionUpdated id s ∈ a'.posted → id ∈ a.activities.map Activity.id) :
    Numbered a' := by
  have hlength : a'.activities.length = a.activities.length := by
    simpa using congrArg List.length hids
  refine ⟨?_, ?_, ?_, ?_⟩
  · rw [hnextId, hlength, hnumbered.nextId]
  · rw [hids, hlength, hnumbered.ids]
  · rw [hrows, hids, hnumbered.rows]
  · rw [hids]
    exact hposted

/-- **One step of the numbers.** -/
theorem Numbered.step (hnumbered : Numbered a) (hdoes : Does a l a') : Numbered a' := by
  have hposted := hnumbered.posted
  cases hdoes with
  | serve l server =>
    refine hnumbered.keep rfl rfl rfl fun id s hmem ↦ ?_
    obtain hmem | hmem := List.mem_append.1 hmem
    · exact hposted id s hmem
    · exact absurd (List.eq_of_mem_replicate hmem) (by simp)
  | run | close => exact hnumbered.keep rfl rfl rfl hposted
  | connected rest hqueue =>
    have hid : a.nextId.toInt = idAt a.activities.length := by rw [hnumbered.nextId, idAt]
    refine ⟨?_, ?_, ?_, fun id s hmem ↦ ?_⟩
    · show a.nextId + 1 = _
      rw [hnumbered.nextId, List.length_append, List.length_singleton]
      exact (Int32.ofNat_add _ 1).symm
    · rw [List.map_append, List.length_append, List.length_singleton, List.range_succ,
        List.map_append, hnumbered.ids]
      exact congrArg (_ ++ [·]) hid
    · show a.model.transactions ++ [a.nextId.toInt] = _
      rw [hnumbered.rows, List.map_append]
      rfl
    · rw [List.map_append]
      exact List.mem_append_left _ (hposted id s (hqueue ▸ List.mem_cons_of_mem _ hmem))
  | updated id s rest hqueue =>
    refine hnumbered.keep rfl rfl TransactionModel.transactionUpdated_transactions ?_
    exact fun id s hmem ↦ hposted id s (hqueue ▸ List.mem_cons_of_mem _ hmem)
  | test =>
    exact hnumbered.keep rfl rfl TransactionModel.compareNext_transactions hposted
  | complete k l activity m hget => exact hnumbered.keep rfl (map_id_set hget rfl) rfl hposted
  | enter k activity state rest hget => exact hnumbered.keep rfl (map_id_set hget rfl) rfl hposted
  | emit k activity signal rest hget =>
    refine hnumbered.keep rfl (map_id_set hget rfl) rfl fun id s hmem ↦ ?_
    obtain hmem | hmem := List.mem_append.1 hmem
    · exact hposted id s hmem
    · split_ifs at hmem with hconnected
      · obtain ⟨rfl, -⟩ := Posted.transactionUpdated.inj (List.eq_of_mem_replicate hmem)
        exact List.mem_map_of_mem (List.mem_of_getElem? hget)
      · exact absurd hmem List.not_mem_nil

theorem numbered_of_run (hrun : system.Run h a) : Numbered a := by
  refine hrun.invariant (fun a ha ↦ ?_) fun a l a' hnumbered hstep ↦
    hnumbered.step (does_of_step hstep)
  obtain rfl : a = {} := ha
  exact ⟨rfl, rfl, rfl, nofun⟩

/-- Transactions stay. -/
theorem length_le_of_does (hdoes : Does a l a') :
    a.activities.length ≤ a'.activities.length := by
  cases hdoes with
  | connected => exact (List.length_append).symm ▸ Nat.le_add_right _ _
  | complete | enter | emit => exact (List.length_set).ge
  | serve | run | close | updated | test => exact le_rfl

theorem length_le_of_run (hrun : system.Run h a) (ht : t ∈ h) :
    t.target.activities.length ≤ a.activities.length := by
  induction hrun with
  | start => exact absurd ht List.not_mem_nil
  | move hrun hstep ih =>
    obtain ht | ht := List.mem_append.1 ht
    · exact (ih ht).trans (length_le_of_does (does_of_step hstep))
    · obtain rfl := List.mem_singleton.1 ht
      exact le_rfl

/-- With few transactions the ids ascend. -/
theorem Numbered.pairwise (hnumbered : Numbered a) (hfew : a.activities.length < 2 ^ 31) :
    a.model.transactions.Pairwise (· < ·) := by
  rw [hnumbered.rows, hnumbered.ids, List.pairwise_map]
  refine List.pairwise_lt_range.imp_of_mem fun {i j} hi hj hlt ↦ ?_
  have hj := List.mem_range.1 hj
  rw [idAt_eq (by omega), idAt_eq (by omega)]
  omega

theorem Numbered.id_eq (hnumbered : Numbered a) (hfew : a.activities.length < 2 ^ 31) {k : ℕ}
    {activity : Activity} (hget : a.activities[k]? = some activity) : activity.id = k + 1 := by
  have hk : k < a.activities.length := (List.getElem?_eq_some_iff.1 hget).1
  have hid : (a.activities.map Activity.id)[k]? = some activity.id := by
    rw [List.getElem?_map, hget]
    rfl
  rw [hnumbered.ids, List.getElem?_map, List.getElem?_range hk] at hid
  exact (Option.some.inj hid).symm.trans (idAt_eq (by omega))

/-- **How transactions are listed**: in the order of their ids, and a slot announces the row of its
transaction. -/
structure Listed (h : List (Move Application Label)) (a : Application) : Prop where
  ids : ∀ (k : ℕ) activity, a.activities[k]? = some activity → activity.id = (k : ℤ) + 1
  rows : a.model.transactions = a.activities.map Activity.id
  announces : ∀ t ∈ h, t.label = .dispatch → ∀ id s rest,
    t.source.posted = .transactionUpdated id s :: rest →
      ∃ row, t.source.activities.map Activity.id = t.target.activities.map Activity.id ∧
        (t.source.activities.map Activity.id)[row]? = some id ∧
        t.target.log =
          t.source.log ++ [.announced (.dataChanged row), .announced (.layoutChanged row)]

/-- **Transactions are listed in order**, and found in their rows, until the ids come round. -/
theorem listed_of_run (hrun : system.Run h a) (hfew : a.activities.length < 2 ^ 31) :
    Listed h a := by
  have hnumbered := numbered_of_run hrun
  refine ⟨fun k activity ↦ hnumbered.id_eq hfew, hnumbered.rows,
    fun t ht hlabel id s rest hposted ↦ ?_⟩
  obtain ⟨h₁, -, hbefore, hstep⟩ := hrun.exists_of_mem ht
  obtain ⟨source, l, target⟩ := t
  obtain rfl : l = .dispatch := hlabel
  have hsource : Numbered source := numbered_of_run hbefore
  have hdoes : Does source .dispatch target := does_of_step hstep
  have hfewer : source.activities.length < 2 ^ 31 :=
    (length_le_of_does hdoes).trans_lt ((length_le_of_run hrun ht).trans_lt hfew)
  cases hdoes with
  | connected rest' hposted' => exact absurd (hposted'.symm.trans hposted) (by simp)
  | updated id' s' rest' hposted' =>
    obtain ⟨heq, -⟩ := List.cons.inj (hposted'.symm.trans hposted)
    obtain ⟨rfl, rfl⟩ := Posted.transactionUpdated.inj heq
    have hid := hsource.posted id' s' (hposted' ▸ List.mem_cons_self)
    rw [← hsource.rows] at hid
    obtain ⟨row, hrow, hupdated⟩ := TransactionModel.transactionUpdated_of_mem
      (source.stateOf id') (hsource.pairwise hfewer) hid
    refine ⟨row, rfl, hsource.rows ▸ hrow, ?_⟩
    show source.log ++ _ = _
    rw [hupdated]
    rfl

/-- Two clients, of whom the second one disconnects first. -/
theorem twoClients_listed :
    ∃ h a, system.Run h a ∧ Listed h a ∧ a.activities.length = 2 ∧
      a.log.getLast? = some (.announced (.layoutChanged 1)) := by
  obtain ⟨h, a, hrun, hlength, htest⟩ := exists_run_of_follow
    ([.serve (.accept {}), .serve (.accept {}), .run, .dispatch, .dispatch, .act 0, .act 1,
      .complete 1 ⟨.readClientRequest, { ec := .eof }⟩] ++ List.replicate 3 (.act 1) ++
      [.dispatch, .test, .dispatch])
    (fun _ a ↦ a.activities.length = 2 ∧
      a.log.getLast? = some (.announced (.layoutChanged 1)))
    (by decide +kernel)
  exact ⟨h, a, hrun, listed_of_run hrun (by rw [hlength]; decide), hlength, htest⟩

end Application

end Amanuensis
