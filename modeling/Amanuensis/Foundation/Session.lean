import Mathlib.Data.List.Basic

/-!
# Sessions

A session on a store of rows, with at most one open transaction. What has been inserted since the
transaction began is seen by the session alone, until it is committed; a rollback discards it. A
statement may fail, and so may `commit`, which then leaves the transaction open.

A *unit of work* begins a transaction, attempts one insertion after another and commits. An attempt
that fails rolls the transaction back, and ends the unit with an error. So a unit either gets to its
end, or leaves the session as it was (`Guarded`), and is shown to do so statement by statement.
-/

/-- A store and the transaction that is open on it. -/
structure Session (ρ : Type*) where
  /-- The rows committed. -/
  rows : List ρ := []
  /-- The rows as the open transaction sees them. -/
  working : Option (List ρ) := none

namespace Session

variable {ρ ε : Type*} {s : Session ρ}

/-- `BEGIN`: it fails inside a transaction. -/
def begin (ok : Bool) (error : ε) (s : Session ρ) : Except (Session ρ × ε) (Session ρ) :=
  if ok ∧ s.working = none then .ok { s with working := some s.rows } else .error (s, error)

/-- `INSERT`: outside a transaction, it is committed at once. -/
def insert (new : List ρ) (s : Session ρ) : Session ρ :=
  match s.working with
  | some rows => { s with working := some (rows ++ new) }
  | none => { s with rows := s.rows ++ new }

/-- `ROLLBACK`. -/
def rollback (s : Session ρ) : Session ρ := { s with working := none }

/-- `COMMIT`: when it fails, the transaction stays open. -/
def commit (ok : Bool) (error : ε) (s : Session ρ) : Except (Session ρ × ε) (Session ρ) :=
  if ok then .ok { rows := s.working.getD s.rows } else .error (s, error)

/-- A statement that inserts rows, followed by a rollback when it fails. -/
def attempt (ok : Bool) (error : ε) (new : List ρ) (s : Session ρ) :
    Except (Session ρ × ε) (Session ρ) :=
  if ok then .ok (s.insert new) else .error (s.rollback, error)

/-- A statement executed once for each row, followed by a rollback when it fails at one of them. -/
def attemptBatch (failsAt : Option ℕ) (error : ε) (new : List ρ) (s : Session ρ) :
    Except (Session ρ × ε) (Session ρ) :=
  match failsAt with
  | none => .ok (s.insert new)
  | some row => .error ((s.insert (new.take row)).rollback, error)

/-- The session after a unit of work. -/
def after (r : Except (Session ρ × ε) (Session ρ)) : Session ρ :=
  match r with
  | .ok s => s
  | .error (s, _) => s

/-! ### Units of work -/

/-- A unit of work that ends in `result` if all goes well, and leaves `s` if not. -/
def Guarded (ok : Bool) (s : Session ρ) (result unit : Except (Session ρ × ε) (Session ρ)) : Prop :=
  ∃ error, unit = if ok then result else .error (s, error)

variable {ok b : Bool} {error : ε} {rows working new : List ρ}
  {result unit : Except (Session ρ × ε) (Session ρ)}
  {f : Session ρ → Except (Session ρ × ε) (Session ρ)}

theorem Guarded.refl (error : ε) (s : Session ρ) (unit : Except (Session ρ × ε) (Session ρ)) :
    Guarded true s unit unit := ⟨error, rfl⟩

/-- A statement that fails leaves what the rest of the unit would leave. -/
theorem Guarded.ite (h : Guarded ok s result unit) (b : Bool) (error : ε) :
    Guarded (b && ok) s result (if b then unit else .error (s, error)) := by
  obtain ⟨e, rfl⟩ := h
  cases b with
  | false => exact ⟨error, rfl⟩
  | true => exact ⟨e, rfl⟩

theorem Guarded.begin (h : Guarded ok ⟨rows, none⟩ result (f ⟨rows, some rows⟩)) :
    Guarded (b && ok) ⟨rows, none⟩ result ((Session.mk rows none).begin b error >>= f) := by
  have hunit := h.ite b error
  cases b <;> exact hunit

theorem Guarded.attempt
    (h : Guarded ok ⟨rows, none⟩ result (f ⟨rows, some (working ++ new)⟩)) :
    Guarded (b && ok) ⟨rows, none⟩ result
      ((Session.mk rows (some working)).attempt b error new >>= f) := by
  have hunit := h.ite b error
  cases b <;> exact hunit

/-- What a batch has inserted before it fails is rolled back. -/
theorem Guarded.attemptBatch {failsAt : Option ℕ}
    (h : Guarded ok ⟨rows, none⟩ result (f ⟨rows, some (working ++ new)⟩)) :
    Guarded (failsAt.isNone && ok) ⟨rows, none⟩ result
      ((Session.mk rows (some working)).attemptBatch failsAt error new >>= f) := by
  have hunit := h.ite failsAt.isNone error
  cases failsAt <;> exact hunit

/-- Inside a transaction no unit of work begins. -/
theorem begin_bind_of_open (hopen : s.working ≠ none) :
    (s.begin b error >>= f) = .error (s, error) := by
  rw [Session.begin, if_neg fun h ↦ hopen h.2]
  rfl

end Session
