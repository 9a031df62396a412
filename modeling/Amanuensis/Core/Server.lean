import Amanuensis.Foundation.Runs
import Amanuensis.Transaction.State

/-!
# The server

`Server` listens for clients: it starts an accept in its constructor, and the handler of an accept
starts the next one. The handler gives up when it finds that the acceptor is closed, which a signal
does to it, and when it is called with an error; nothing starts an accept again.
-/

open LabelledSystem

namespace Amanuensis

/-- The acceptor, and what has been started on it. -/
structure Server where
  acceptorOpen : Bool := true
  /-- How many calls of `async_accept` are outstanding. -/
  accepting : ℕ := 0
  /-- A call of `async_wait` for a signal is outstanding. -/
  waiting : Bool := true
  /-- The connections made. -/
  connections : ℕ := 0
  deriving DecidableEq, Repr

namespace Server

/-- `do_accept`, which waits for one more connection. -/
def doAccept (server : Server) : Server := { server with accepting := server.accepting + 1 }

/-- `ConnectionPool::make_connection`, which emits `client_connected`. -/
def makeConnection (server : Server) : Server :=
  { server with connections := server.connections + 1 }

/-- The handler of `async_accept`. -/
def onAccept (ec : ErrorCode) (server : Server) : Server :=
  if ¬ server.acceptorOpen then server
  else if ¬ ec.isError then server.makeConnection.doAccept
  else server

/-- The handler of `async_wait`. -/
def onSignal (server : Server) : Server := { server with acceptorOpen := false }

/-- A server that has just been constructed. -/
def constructed : Server := doAccept {}

/-- What may happen next: an accept completes, or a signal arrives. -/
inductive Label
  | accept (ec : ErrorCode)
  | signal
  deriving DecidableEq, Repr

/-- The completion of an operation that is outstanding. -/
def next (server : Server) : Label → Option Server
  | .accept ec =>
    if server.accepting = 0 then none
    else some ({ server with accepting := server.accepting - 1 }.onAccept ec)
  | .signal => if server.waiting then some { server.onSignal with waiting := false } else none

/-! ### What a completion does -/

variable {server server' : Server} {ec : ErrorCode}

/-- The handler of an accept gives up. -/
def givesUp (server : Server) (ec : ErrorCode) : Prop :=
  server.acceptorOpen = false ∨ ec.isError = true

instance : Decidable (server.givesUp ec) := inferInstanceAs (Decidable (_ ∨ _))

theorem onAccept_of_givesUp (hgives : server.givesUp ec) : server.onAccept ec = server := by
  obtain hclosed | herror := hgives
  · exact if_pos (by simp [hclosed])
  · rw [onAccept, if_neg (not_not.2 herror), ite_self]

theorem onAccept_of_not_givesUp (hgives : ¬ server.givesUp ec) :
    server.onAccept ec = server.makeConnection.doAccept := by
  obtain ⟨hopen, herror⟩ := not_or.1 hgives
  rw [onAccept, if_neg (by simpa using hopen), if_pos herror]

/-- An accept makes a connection and is followed by another one, or is the last. -/
theorem accept_cases (hnext : server.next (.accept ec) = some server') :
    server.accepting ≠ 0 ∧
      (server.givesUp ec ∧ server' = { server with accepting := server.accepting - 1 } ∨
        ¬ server.givesUp ec ∧ server' = { server with connections := server.connections + 1 }) := by
  rw [next] at hnext
  split_ifs at hnext with hnone
  obtain rfl := Option.some.inj hnext
  refine ⟨hnone, ?_⟩
  by_cases hgives : server.givesUp ec
  · exact .inl ⟨hgives, onAccept_of_givesUp hgives⟩
  · refine .inr ⟨hgives, ?_⟩
    have hlast : server.accepting - 1 + 1 = server.accepting :=
      Nat.sub_add_cancel (Nat.one_le_iff_ne_zero.2 hnone)
    have hgives' : ¬ givesUp { server with accepting := server.accepting - 1 } ec := hgives
    rw [onAccept_of_not_givesUp hgives', makeConnection, doAccept, hlast]

/-- A signal closes the acceptor, and leaves what is outstanding. -/
theorem signal_eq (hnext : server.next .signal = some server') :
    server' = { server with acceptorOpen := false, waiting := false } := by
  rw [next] at hnext
  split_ifs at hnext with hwaiting
  exact (Option.some.inj hnext).symm

end Server

end Amanuensis
