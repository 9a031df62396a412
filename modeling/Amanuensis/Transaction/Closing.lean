import Mathlib.Data.List.Count
import Amanuensis.Transaction.Primitives
import Amanuensis.Transaction.Failures

/-!
# Closing the connections

`release_connections` closes the connections a transaction still has and lets go of them, so that
`close` is called once on each of them, and no operation is started on one of them afterwards. What
`close` does rests on the flag `open_` of the connection, which nothing initialises: where it
happens not to be set, the socket is never closed. So each socket is closed exactly once in the runs
in which the flags of the connections that are released were set from the beginning
(`closedOnce_iff`), and in no others.
-/

namespace Amanuensis

/-- `BaseConnection`: the flag `open_`, and how often the socket has been closed. -/
structure BaseConnection where
  isOpen : Bool
  closed : ℕ := 0
  deriving DecidableEq, Repr

namespace BaseConnection

/-- `BaseConnection::close`, which closes the socket once. -/
def close (conn : BaseConnection) : BaseConnection :=
  -- `open_.exchange(false)`
  let wasOpen := conn.isOpen
  let conn := { conn with isOpen := false }
  if wasOpen then { conn with closed := conn.closed + 1 } else conn

/-- Without its flag, a connection is left alone. -/
theorem close_iterate_of_not_isOpen (n closed : ℕ) :
    close^[n] { isOpen := false, closed := closed } = { isOpen := false, closed := closed } :=
  Function.iterate_fixed rfl n

/-- **The first call closes the socket** if the flag is set, and the later ones do nothing. -/
theorem closed_iterate (flag : Bool) (n : ℕ) :
    (close^[n] { isOpen := flag }).closed = if flag then min n 1 else 0 := by
  cases flag with
  | false => rw [close_iterate_of_not_isOpen]; rfl
  | true =>
    cases n with
    | zero => rfl
    | succ n =>
      have hfirst : close { isOpen := true } = { isOpen := false, closed := 1 } := rfl
      rw [Function.iterate_succ_apply, hfirst, close_iterate_of_not_isOpen]
      simp

end BaseConnection

/-- The connection that an operation reads from or writes to. -/
def Operation.connection : Operation → Option Connection
  | readClientRequest | sendResponse _ | connectReply _ _ _ => some .client
  | sendRequest _ | readRemoteResponse => some .remote
  | tunnelRead .clientToRemote | tunnelWrite .remoteToClient _ => some .client
  | tunnelRead .remoteToClient | tunnelWrite .clientToRemote _ => some .remote
  | resolve _ | connect _ => none

/-- The pointer to a connection is not null. -/
def Machine.Has (m : Machine) : Connection → Prop
  | .client => m.tx.client ≠ none
  | .remote => m.tx.remote ≠ none

namespace Transaction

open HttpMessageParser LabelledSystem

variable {flags : Connection → Bool} {m m' m₀ m₁ : Machine} {l : Label} {op : Operation}
  {h : List (Move Machine Label)} {t : Move Machine Label}

/-! ### What is claimed, and when -/

/-- A connection after the calls of `close`, with what its flag held at first. -/
def socket (flags : Connection → Bool) (c : Connection) (m : Machine) : BaseConnection :=
  BaseConnection.close^[m.trace.count (.close c)] { isOpen := flags c }

/-- The operations started in a move: they are appended to those that are pending. -/
def started (t : Move Machine Label) : List Operation :=
  t.target.pending.drop (t.source.pending.erase t.label.operation).length

/-- **Each socket is closed once**, in a run that leads to a state. -/
structure ClosedOnce (flags : Connection → Bool) (h : List (Move Machine Label)) (m : Machine) :
    Prop where
  /-- The first release closes the sockets of the connections there are. -/
  released : ∀ t ∈ h, t.source.tx.client ≠ none → t.target.tx.client = none →
    ∀ c, t.source.Has c → (socket flags c t.target).closed = 1
  /-- No socket is closed twice. -/
  once : ∀ c, (socket flags c m).closed ≤ 1
  /-- No operation is started on a connection that has been closed. -/
  started : ∀ t ∈ h, ∀ op ∈ started t, ∀ c ∈ op.connection, .close c ∉ t.target.trace

/-- The connections are released. -/
def Effect.releases : Effect → Bool
  | .proceed _ => false
  | _ => true

/-- **The flags are set** of the connections that a move releases. -/
def FlagsSet (flags : Connection → Bool) (t : Move Machine Label) : Prop :=
  (effectOf t.source t.label).releases = true → ∀ c, t.source.Has c → flags c = true

/-! ### Closing, act by act -/

/-- **The invariant**: nothing is closed as long as the client is there, and everything has been
closed once and let go of when it is not. -/
structure Closing (m : Machine) : Prop where
  client : m.tx.client = none ∨ m.tx.client = some .client
  remote : m.tx.remote = none ∨ m.tx.remote = some .remote
  opened : m.tx.client ≠ none → ∀ c, .close c ∉ m.trace
  gone : m.tx.client = none → m.tx.remote = none
  once (c : Connection) : m.trace.count (.close c) ≤ 1

/-- Events other than `close`, with the connections kept. -/
theorem Closing.of_trace (new : List Event) (hm : Closing m) (htrace : m'.trace = m.trace ++ new)
    (hclient : m'.tx.client = m.tx.client) (hremote : m'.tx.remote = m.tx.remote)
    (hnew : ∀ c, .close c ∉ new) : Closing m' where
  client := by rw [hclient]; exact hm.client
  remote := by rw [hremote]; exact hm.remote
  opened hopen c hmem := by
    rw [hclient] at hopen
    rw [htrace] at hmem
    exact (List.mem_append.1 hmem).elim (hm.opened hopen c) (hnew c)
  gone hnone := by
    rw [hclient] at hnone
    rw [hremote, hm.gone hnone]
  once c := by
    rw [htrace, List.count_append, List.count_eq_zero_of_not_mem (hnew c), Nat.add_zero]
    exact hm.once c

theorem count_released (m : Machine) (c : Connection) :
    m.released.trace.count (.close c) =
      m.trace.count (.close c) +
        (m.tx.client.toList ++ m.tx.remote.toList).count c := by
  have hinj : Function.Injective Event.close := fun _ _ h ↦ Event.close.inj h
  rw [Machine.released, List.count_append, List.count_map_of_injective _ _ hinj]

/-- Every connection there is, once. -/
theorem count_connections (hm : Closing m) (c : Connection) :
    (m.tx.client.toList ++ m.tx.remote.toList).count c ≤ 1 := by
  rcases hm.client with hclient | hclient <;> rcases hm.remote with hremote | hremote <;>
    cases c <;> simp [hclient, hremote]

theorem Closing.release (hm : Closing m) : Closing m.released where
  client := .inl rfl
  remote := .inl rfl
  opened hopen := absurd rfl hopen
  gone _ := rfl
  once c := by
    rw [count_released]
    by_cases hclient : m.tx.client = none
    · have hnone : m.tx.client.toList ++ m.tx.remote.toList = [] := by
        simp [hclient, hm.gone hclient]
      rw [hnone]
      exact hm.once c
    · rw [List.count_eq_zero_of_not_mem (hm.opened hclient c), Nat.zero_add]
      exact count_connections hm c

/-- A connection there is, is closed at the release. -/
theorem close_mem_released (hm : Closing m) {c : Connection} (hc : m.Has c) :
    .close c ∈ m.released.trace := by
  refine List.mem_append_right _ (List.mem_map_of_mem ?_)
  rw [List.mem_append]
  cases c with
  | client => exact .inl (by simp [hm.client.resolve_left hc])
  | remote => exact .inr (by simp [hm.remote.resolve_left hc])

/-- What an act does to the connections: it keeps them, or it releases them. -/
theorem Act.connections (hact : Act op m m') :
    m' = m.released ∨ ∃ new, m'.trace = m.trace ++ new ∧ m'.tx.client = m.tx.client ∧
      m'.tx.remote = m.tx.remote ∧ ∀ c, .close c ∉ new := by
  cases hact with
  | assign _ htrace _ _ _ hclient hremote =>
    exact .inr ⟨[], by rw [htrace, List.append_nil], hclient, hremote, nofun⟩
  | start => exact .inr ⟨[], (List.append_nil _).symm, rfl, rfl, nofun⟩
  | tryOpen | phase | fail | complete => exact .inr ⟨_, rfl, rfl, rfl, by simp⟩
  | release => exact .inl rfl
  | notify ns hns =>
    rw [doNotification_eq]
    refine .inr ⟨_, rfl, rfl, rfl, fun c hmem ↦ ?_⟩
    rcases List.mem_append.1 hmem with hmem | hmem
    · obtain ⟨signal, state, heq⟩ := exists_signal_of_mem_stepEvents hmem
      exact nomatch heq
    · exact nomatch List.mem_singleton.1 hmem

/-- The invariant, with the connections of an earlier machine: each is still there, or closed. -/
structure ClosingFrom (m₀ m : Machine) : Prop where
  closing : Closing m
  kept (c : Connection) : m₀.Has c → m.Has c ∨ .close c ∈ m.trace

/-- **Every act keeps the invariant.** -/
theorem ClosingFrom.act (hm : ClosingFrom m₀ m) (hact : Act op m m') : ClosingFrom m₀ m' := by
  rcases hact.connections with rfl | ⟨new, htrace, hclient, hremote, hnew⟩
  · refine ⟨hm.closing.release, fun c hc ↦ .inr ?_⟩
    rcases hm.kept c hc with hhas | hmem
    · exact close_mem_released hm.closing hhas
    · exact List.mem_append_left _ hmem
  · refine ⟨hm.closing.of_trace new htrace hclient hremote hnew, fun c hc ↦ ?_⟩
    rcases hm.kept c hc with hhas | hmem
    · refine .inl ?_
      cases c with
      | client => exact fun hnone ↦ hhas (hclient.symm.trans hnone)
      | remote => exact fun hnone ↦ hhas (hremote.symm.trans hnone)
    · exact .inr (htrace ▸ List.mem_append_left _ hmem)

/-- The remote connection comes in only while the client is there. -/
theorem closingFrom_of_opens (hm : Closing m) (hcontrol : Control m) (hl : op ∈ m.pending)
    (hopens : Opens op (m.without op) m₁) : ClosingFrom m m₁ := by
  cases hopens with
  | none =>
    have hsame : Closing (m.without op) :=
      hm.of_trace [] (List.append_nil _).symm rfl rfl nofun
    exact ⟨hsame, fun c hc ↦ .inl (by cases c <;> exact hc)⟩
  | connect callback =>
    have hclient : m.tx.client = some .client := (hcontrol.stage.expected hl rfl).2.1
    have hopen : m.tx.client ≠ none := hclient ▸ Option.some_ne_none _
    refine ⟨⟨hm.client, .inr rfl, hm.opened, fun hnone ↦ absurd hnone hopen, hm.once⟩, ?_⟩
    refine fun c hc ↦ .inl ?_
    cases c with
    | client => exact hc
    | remote => exact Option.some_ne_none _

theorem closingFrom_of_step (hm : Closing m) (hcontrol : Control m) (hstep : system.step m l m') :
    ClosingFrom m m' :=
  (does_of_handle hstep.2).keeps (fun _ ↦ closingFrom_of_opens hm hcontrol hstep.1)
    fun _ _ hm₁ hact ↦ hm₁.act hact

theorem closing_of_run (hrun : system.Run h m) : Closing m := by
  induction hrun with
  | start hm =>
    obtain rfl := init_iff.1 hm
    exact ⟨.inr rfl, .inl rfl, fun _ c ↦ by cases c <;> decide, nofun,
      fun c ↦ by cases c <;> decide⟩
  | move hrun hstep ih => exact (closingFrom_of_step ih (control_of_run hrun) hstep).closing

/-! ### Steps -/

/-- The client is let go of exactly by the effects that release. -/
theorem client_eq_none_iff (hm : Control m) (hstep : system.step m l m')
    (hclient : m.tx.client ≠ none) :
    m'.tx.client = none ↔ (effectOf m l).releases = true := by
  obtain ⟨_, -, happlied⟩ := hm.applied hstep rfl
  rw [happlied.client]
  cases effectOf m l with
  | proceed => exact iff_of_false hclient Bool.false_ne_true
  | release | finish | fail => exact iff_of_true rfl rfl

/-- What is started is what the effect says. -/
theorem started_eq (hm : Control m) (hstep : system.step m l m') :
    started ⟨m, l, m'⟩ = (effectOf m l).operations := by
  obtain ⟨_, -, happlied⟩ := hm.applied hstep rfl
  show m'.pending.drop _ = _
  rw [happlied.pending]
  exact List.drop_left

/-- Once the connections have been released, nothing is started. -/
theorem operations_of_client_eq_none (hm : Control m) (hl : l.operation ∈ m.pending)
    (hclient : m.tx.client = none) : (effectOf m l).operations = [] := by
  have hd : l.operation.direction ≠ none := by
    intro hnone
    have hsome := (hm.stage.expected hl hnone).2.1
    exact Option.some_ne_none _ (hsome.symm.trans hclient)
  obtain ⟨o, c⟩ := l
  cases o <;> first
    | exact absurd rfl hd
    | grind [effectOf, Effect.operations]

/-- No operation is started on a connection that has been closed. -/
theorem not_closed_of_started (hm : Control m) (hclosing : Closing m)
    (hstep : system.step m l m') (hop : op ∈ started ⟨m, l, m'⟩) (c : Connection) :
    .close c ∉ m'.trace := by
  rw [started_eq hm hstep] at hop
  have hclient : m.tx.client ≠ none := by
    intro hnone
    rw [operations_of_client_eq_none hm hstep.1 hnone] at hop
    exact nomatch hop
  have hproceeds : (effectOf m l).releases ≠ true := by
    intro hreleases
    cases he : effectOf m l with
    | proceed ops => rw [he] at hreleases; exact Bool.false_ne_true hreleases
    | release | finish | fail => rw [he] at hop; exact nomatch hop
  have hkept : m'.tx.client ≠ none := fun hnone ↦
    hproceeds ((client_eq_none_iff hm hstep hclient).1 hnone)
  exact (closingFrom_of_step hclosing hm hstep).closing.opened hkept c

/-- At the release every connection there is has been closed once. -/
theorem count_close_of_release (hm : Control m) (hclosing : Closing m)
    (hstep : system.step m l m') (hnone : m'.tx.client = none) {c : Connection} (hc : m.Has c) :
    m'.trace.count (.close c) = 1 := by
  have hfrom := closingFrom_of_step hclosing hm hstep
  have hgone : ¬ m'.Has c := by
    cases c with
    | client => exact fun hhas ↦ hhas hnone
    | remote => exact fun hhas ↦ hhas (hfrom.closing.gone hnone)
  have hmem := (hfrom.kept c hc).resolve_left hgone
  exact le_antisymm (hfrom.closing.once c) (List.count_pos_iff.2 hmem)

/-- **When each socket is closed once**: exactly if the flags of the connections are set that are
released. -/
theorem closedOnce_iff (flags : Connection → Bool) (hrun : system.Run h m) :
    ClosedOnce flags h m ↔ ∀ t ∈ h, FlagsSet flags t := by
  have hmoves (t : Move Machine Label) (ht : t ∈ h) :
      Control t.source ∧ Closing t.source ∧ system.step t.source t.label t.target := by
    obtain ⟨h₁, -, hrun₁, hstep⟩ := hrun.exists_of_mem ht
    exact ⟨control_of_run hrun₁, closing_of_run hrun₁, hstep⟩
  have hclosed {t : Move Machine Label} (ht : t ∈ h) (hnone : t.target.tx.client = none)
      {c : Connection} (hc : t.source.Has c) :
      (socket flags c t.target).closed = if flags c then 1 else 0 := by
    obtain ⟨hm, hclosing, hstep⟩ := hmoves t ht
    rw [socket, BaseConnection.closed_iterate, count_close_of_release hm hclosing hstep hnone hc]
    rfl
  constructor
  · intro honce t ht hreleases c hc
    obtain ⟨hm, hclosing, hstep⟩ := hmoves t ht
    -- whoever still has a connection still has the client
    have hclient : t.source.tx.client ≠ none := by
      intro hnone
      cases c with
      | client => exact hc hnone
      | remote => exact hc (hclosing.gone hnone)
    have hnone := (client_eq_none_iff hm hstep hclient).2 hreleases
    have hone := honce.released t ht hclient hnone c hc
    rw [hclosed ht hnone hc] at hone
    cases hflag : flags c with
    | true => rfl
    | false => rw [hflag] at hone; exact nomatch hone
  · intro hflags
    refine ⟨fun t ht hclient hnone c hc ↦ ?_, fun c ↦ ?_, fun t ht op hop c _ ↦ ?_⟩
    · obtain ⟨hm, -, hstep⟩ := hmoves t ht
      have hreleases := (client_eq_none_iff hm hstep hclient).1 hnone
      rw [hclosed ht hnone hc, if_pos (hflags t ht hreleases c hc)]
    · rw [socket, BaseConnection.closed_iterate]
      split_ifs
      · exact Nat.min_le_right _ _
      · exact Nat.zero_le _
    · obtain ⟨hm, hclosing, hstep⟩ := hmoves t ht
      exact not_closed_of_started hm hclosing hstep hop c

/-- The flags are set, and the client disconnects. -/
theorem clientDisconnected_closedOnce :
    ∃ h m, system.Run h m ∧ m.tx.client = none ∧ ClosedOnce (fun _ ↦ true) h m := by
  obtain ⟨h, m, hrun, hclient⟩ := exists_run_of_follow [⟨.readClientRequest, { ec := .eof }⟩]
    (fun _ m ↦ m.tx.client = none) (by decide +kernel)
  exact ⟨h, m, hrun, hclient, (closedOnce_iff _ hrun).2 fun _ _ _ _ _ ↦ rfl⟩

/-- The flag of the client is not set: its socket is not closed when it disconnects. -/
theorem clientDisconnected_not_closedOnce :
    ∃ h m, system.Run h m ∧ m.tx.client = none ∧ ¬ ClosedOnce (fun _ ↦ false) h m := by
  obtain ⟨h, m, hrun, hclient, hfirst⟩ := exists_run_of_follow
    [⟨.readClientRequest, { ec := .eof }⟩]
    (fun h m ↦ m.tx.client = none ∧ ∃ t ∈ h, t.source.tx.client ≠ none ∧
      t.target.tx.client = none ∧ (socket (fun _ ↦ false) .client t.target).closed = 0)
    (by decide +kernel)
  obtain ⟨t, ht, hsource, htarget, hopen⟩ := hfirst
  refine ⟨h, m, hrun, hclient, fun honce ↦ ?_⟩
  exact absurd (honce.released t ht hsource htarget .client hsource) (by rw [hopen]; decide)

end Transaction

end Amanuensis
