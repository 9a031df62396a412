import Amanuensis.Transaction.Termination
import Mathlib.Algebra.BigOperators.Ring.List
import Mathlib.Algebra.Ring.Nat

/-!
# Transactions come to an end

A transaction does not run on its own: a read that has not failed brings bytes, and what the
transaction can do without reading is bounded (`Machine.potential`). So the number of completions is
bounded by the bytes that have been read, in both directions of a tunnel together
(`boundedByReads_of_run`), and a transaction whose peers have nothing to say any more is left with
nothing to do but wait.
-/

namespace Amanuensis

/-- The completions that an operation may lead to without another read, itself included; a read of
the tunnel takes the write that follows from what it brings. -/
def Operation.potential : Operation → ℕ
  | .readClientRequest => 4
  | .resolve _ => 5
  | .connect _ => 4
  | .sendRequest _ => 2
  | .readRemoteResponse => 1
  | .sendResponse _ => 1
  | .connectReply _ _ _ => 3
  | .tunnelRead _ => 1
  | .tunnelWrite _ _ => 2

/-- What all pending operations may lead to. -/
def Machine.potential (m : Machine) : ℕ := (m.pending.map Operation.potential).sum

namespace Transaction

open HttpMessageParser LabelledSystem

variable {m m' : Machine} {l : Label} {h : List (Move Machine Label)}

/-- The bytes that a completion brings. -/
def Label.bytesRead (l : Label) : ℕ :=
  if l.operation.isRead = true ∧ l.completion.ec.isError = false then l.completion.data.length
  else 0

/-- What a read is relied upon for: it brings something, or it fails. -/
def Brings (t : Move Machine Label) : Prop :=
  t.label.operation.isRead = true → t.label.completion.ec.isError = false →
    t.label.completion.data ≠ []

instance : DecidablePred Brings := fun _ ↦ inferInstanceAs (Decidable (_ → _))

/-- The operations that are started take what the one that has completed leaves, and two for each
byte. -/
theorem potential_effectOf (hbrings : l.operation.isRead = true →
    l.completion.ec.isError = false → l.completion.data ≠ []) :
    ((effectOf m l).operations.map Operation.potential).sum + 1 ≤
      l.operation.potential + 2 * l.bytesRead := by
  obtain ⟨op, c⟩ := l
  have hbytes (hread : op.isRead = true) (hok : c.ec.isError = false) :
      1 ≤ Label.bytesRead ⟨op, c⟩ := by
    rw [Label.bytesRead, if_pos ⟨hread, hok⟩]
    exact List.length_pos_iff.2 (hbrings hread hok)
  cases op with
  | readClientRequest | readRemoteResponse | tunnelRead d =>
    replace hbytes := hbytes rfl
    grind [effectOf, Effect.operations, Operation.potential]
  | resolve callback | connect callback =>
    cases callback <;> grind [effectOf, Effect.operations, Operation.potential]
  | sendRequest bytes | sendResponse bytes | connectReply ec success bytes | tunnelWrite d bytes =>
    grind [effectOf, Effect.operations, Operation.potential]

/-- **A completion** uses up one unit. -/
theorem potential_step (hm : Control m) (hstep : system.step m l m') (hbrings : Brings ⟨m, l, m'⟩) :
    m'.potential + 1 ≤ m.potential + 2 * l.bytesRead := by
  obtain ⟨notes, -, happlied⟩ := hm.applied hstep rfl
  have hpending : m'.pending = m.pending.erase l.operation ++ (effectOf m l).operations :=
    happlied.pending
  have hstarted := potential_effectOf (m := m) (l := l) hbrings
  have hcompleted : m.potential =
      l.operation.potential + ((m.pending.erase l.operation).map Operation.potential).sum :=
    (List.sum_map_erase Operation.potential hstep.1).symm
  rw [hcompleted, Machine.potential, hpending, List.map_append, List.sum_append]
  omega

/-- **A transaction is bounded by what it reads**, and while something is pending it goes on. -/
structure BoundedByReads (h : List (Move Machine Label)) (m : Machine) : Prop where
  length : h.length + m.potential ≤ 4 + 2 * (h.map fun t ↦ t.label.bytesRead).sum
  goes : ∀ op ∈ m.pending, ∀ c, ¬ Aborts m ⟨op, c⟩ → ∃ m', system.step m ⟨op, c⟩ m'

theorem boundedByReads_of_run (hrun : system.Run h m) (hbrings : ∀ t ∈ h, Brings t) :
    BoundedByReads h m := by
  refine ⟨?_, fun op hop c haborts ↦ (control_of_run hrun).exists_step hop haborts⟩
  have hlength := hrun.length_le Machine.potential (fun t ↦ 2 * t.label.bytesRead) (n := 4)
    (P := Brings) (fun _ _ ↦ control_of_run) (fun m hm ↦ ?_) (fun _ _ _ ↦ potential_step) hbrings
  · rwa [List.sum_map_mul_left] at hlength
  · rw [init_iff.1 hm]
    decide

/-- A tunnel is opened, one byte goes each way, and the client leaves. -/
theorem shortTunnel_boundedByReads :
    ∃ h m, system.Run h m ∧ BoundedByReads h m ∧ h.length = 10 ∧ m.tx.client = none := by
  obtain ⟨h, m, hrun, hbrings, htest⟩ := exists_run_of_follow
    [⟨.readClientRequest, { data := asciiBytes "CONNECT a:443 HTTP/1.1\r\n\r\n" }⟩,
      ⟨.resolve .tunnel, {}⟩, ⟨.connect .tunnel, {}⟩,
      ⟨.connectReply {} true (connectReplyText true), { written := 2 }⟩,
      ⟨.tunnelRead .remoteToClient, { data := [7] }⟩,
      ⟨.tunnelRead .clientToRemote, { data := [8] }⟩,
      ⟨.tunnelWrite .clientToRemote [8], { written := 1 }⟩,
      ⟨.tunnelWrite .remoteToClient [7], { written := 1 }⟩,
      ⟨.tunnelRead .clientToRemote, { ec := .eof }⟩,
      ⟨.tunnelRead .remoteToClient, { ec := .eof }⟩]
    (fun h m ↦ (∀ t ∈ h, Brings t) ∧ h.length = 10 ∧ m.tx.client = none)
    (by decide +kernel)
  exact ⟨h, m, hrun, boundedByReads_of_run hrun hbrings, htest⟩

end Transaction

end Amanuensis
