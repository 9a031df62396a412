import Mathlib.Algebra.BigOperators.Group.List.Basic
import Mathlib.Algebra.GroupWithZero.Nat
import Mathlib.Data.List.Basic

/-!
# Runs of a labelled system

A labelled system has initial states and labelled steps. A *run* is a sequence of moves from an
initial state, and keeps its history: the source, the label and the target of every move. What a
run guarantees is proved by induction over it, once, in `Run.history_induction`: a property of the
history and the state that holds at the start and is preserved by every move that meets a condition
holds at the end of every run whose moves all meet it. `Run.invariant` is the case of a property of
the state alone, under no condition.
-/

/-- What is bound has succeeded, if the whole has. -/
theorem exists_ok_of_bind.{u, v} {ε : Type u} {α β : Type v} {x : Except ε α}
    {f : α → Except ε β} {b : β} (h : x >>= f = .ok b) : ∃ a, x = .ok a ∧ f a = .ok b := by
  cases x with
  | error e => exact nomatch h
  | ok a => exact ⟨a, rfl, h⟩

/-- Initial states and labelled steps. -/
structure LabelledSystem (σ ℓ : Type*) where
  /-- Where runs start. -/
  init : σ → Prop
  /-- The steps. -/
  step : σ → ℓ → σ → Prop

namespace LabelledSystem

variable {σ ℓ : Type*}

/-- One step of a run. -/
structure Move (σ ℓ : Type*) where
  source : σ
  label : ℓ
  target : σ

/-- `S.Run h s`: the moves `h` lead from an initial state to `s`. -/
inductive Run (S : LabelledSystem σ ℓ) : List (Move σ ℓ) → σ → Prop
  | start {s : σ} : S.init s → Run S [] s
  | move {h : List (Move σ ℓ)} {s s' : σ} {l : ℓ} : Run S h s → S.step s l s' →
      Run S (h ++ [⟨s, l, s'⟩]) s'

variable {S : LabelledSystem σ ℓ}

/-- **Induction over the moves of a run** that all meet a condition. -/
theorem Run.history_induction {P : Move σ ℓ → Prop} {I : List (Move σ ℓ) → σ → Prop}
    (hstart : ∀ s, S.init s → I [] s)
    (hmove : ∀ h s l s', S.Run h s → I h s → S.step s l s' → P ⟨s, l, s'⟩ →
      I (h ++ [⟨s, l, s'⟩]) s')
    {h : List (Move σ ℓ)} {s : σ} (hrun : S.Run h s) (hP : ∀ t ∈ h, P t) : I h s := by
  induction hrun with
  | start hs => exact hstart _ hs
  | move hrun hstep ih =>
    obtain ⟨hPs, hPlast⟩ := List.forall_mem_append.1 hP
    exact hmove _ _ _ _ hrun (ih hPs) hstep (hPlast _ (List.mem_singleton_self _))

/-- **Invariants** hold in every state reached. -/
theorem Run.invariant {I : σ → Prop} (hstart : ∀ s, S.init s → I s)
    (hmove : ∀ s l s', I s → S.step s l s' → I s') {h : List (Move σ ℓ)} {s : σ}
    (hrun : S.Run h s) : I s := by
  induction hrun with
  | start hs => exact hstart _ hs
  | move _ hstep ih => exact hmove _ _ _ ih hstep

/-- **The length of a run** is bounded by what its moves gain, if a move uses up one unit of a
potential. -/
theorem Run.length_le (potential : σ → ℕ) (gain : Move σ ℓ → ℕ) {P : Move σ ℓ → Prop}
    {I : σ → Prop} {n : ℕ} (hinvariant : ∀ h s, S.Run h s → I s)
    (hstart : ∀ s, S.init s → potential s ≤ n)
    (hmove : ∀ s l s', I s → S.step s l s' → P ⟨s, l, s'⟩ →
      potential s' + 1 ≤ potential s + gain ⟨s, l, s'⟩)
    {h : List (Move σ ℓ)} {s : σ} (hrun : S.Run h s) (hP : ∀ t ∈ h, P t) :
    h.length + potential s ≤ n + (h.map gain).sum := by
  refine hrun.history_induction
    (I := fun h s ↦ h.length + potential s ≤ n + (h.map gain).sum) (fun s hs ↦ ?_)
    (fun h s l s' hrun ih hstep hP ↦ ?_) hP
  · simpa using hstart s hs
  · have hstep := hmove s l s' (hinvariant h s hrun) hstep hP
    rw [List.length_append, List.length_singleton, List.map_append, List.map_singleton,
      List.sum_append, List.sum_singleton]
    omega

/-- The last move of a run. -/
theorem Run.of_concat {h : List (Move σ ℓ)} {t : Move σ ℓ} {s : σ} (hrun : S.Run (h ++ [t]) s) :
    S.Run h t.source ∧ S.step t.source t.label t.target ∧ t.target = s := by
  generalize heq : h ++ [t] = h' at hrun
  cases hrun with
  | start _ => exact absurd heq (by simp)
  | move hrun hstep =>
    obtain ⟨rfl, hlast⟩ := List.append_inj' heq rfl
    obtain rfl := (List.cons.inj hlast).1
    exact ⟨hrun, hstep, rfl⟩

/-- The source of a move is reached by the moves before it. -/
theorem Run.of_append {h h₁ h₂ : List (Move σ ℓ)} {t : Move σ ℓ} {s : σ} (hrun : S.Run h s)
    (heq : h = h₁ ++ t :: h₂) : S.Run h₁ t.source ∧ S.step t.source t.label t.target := by
  induction hrun generalizing h₂ with
  | start _ => exact absurd heq.symm (by simp)
  | move hrun hstep ih =>
    rcases List.eq_nil_or_concat h₂ with rfl | ⟨h₂, t', rfl⟩
    · obtain ⟨hsource, hmove, -⟩ := Run.of_concat (heq ▸ hrun.move hstep)
      exact ⟨hsource, hmove⟩
    · rw [List.concat_eq_append, ← List.cons_append, ← List.append_assoc] at heq
      exact ih (List.append_inj' heq rfl).1

/-- A move of a run is a step from where a part of the run leads. -/
theorem Run.exists_of_mem {h : List (Move σ ℓ)} {t : Move σ ℓ} {s : σ} (hrun : S.Run h s)
    (ht : t ∈ h) : ∃ h₁ ⊆ h, S.Run h₁ t.source ∧ S.step t.source t.label t.target := by
  obtain ⟨h₁, h₂, heq⟩ := List.append_of_mem ht
  exact ⟨h₁, fun u hu ↦ heq ▸ List.mem_append_left _ hu, hrun.of_append heq⟩

/-! ### Moves that are followed -/

/-- Every move of one kind is followed by one of another kind. -/
def Followed (P Q : Move σ ℓ → Prop) (h : List (Move σ ℓ)) : Prop :=
  ∀ h₁ t h₂, h = h₁ ++ t :: h₂ → P t → ∃ u ∈ h₂, Q u

section

variable {P Q : Move σ ℓ → Prop} {h : List (Move σ ℓ)} {t : Move σ ℓ}

theorem followed_nil : Followed P Q [] := fun _ _ _ heq _ ↦ absurd heq (by simp)

/-- A move of the other kind makes up for all of them. -/
theorem followed_concat_of_goal (hP : ¬ P t) (hQ : Q t) : Followed P Q (h ++ [t]) := by
  intro h₁ u h₂ heq hu
  obtain rfl | ⟨h₂, t', rfl⟩ := List.eq_nil_or_concat h₂
  · obtain rfl := List.singleton_inj.1 (List.append_inj' heq rfl).2
    exact absurd hu hP
  · rw [List.concat_eq_append, ← List.cons_append, ← List.append_assoc] at heq
    obtain rfl := List.singleton_inj.1 (List.append_inj' heq rfl).2
    exact ⟨t, by simp, hQ⟩

theorem not_followed_concat (hP : P t) : ¬ Followed P Q (h ++ [t]) := by
  intro hfollowed
  obtain ⟨u, hu, -⟩ := hfollowed h t [] rfl hP
  exact absurd hu List.not_mem_nil

/-- A move of neither kind changes nothing. -/
theorem followed_concat_iff (hP : ¬ P t) (hQ : ¬ Q t) :
    Followed P Q (h ++ [t]) ↔ Followed P Q h := by
  constructor
  · rintro hfollowed h₁ u h₂ rfl hu
    obtain ⟨v, hv, hgoal⟩ := hfollowed h₁ u (h₂ ++ [t]) (by simp) hu
    obtain hv | hv := List.mem_append.1 hv
    · exact ⟨v, hv, hgoal⟩
    · exact absurd (List.mem_singleton.1 hv ▸ hgoal) hQ
  · intro hfollowed h₁ u h₂ heq hu
    obtain rfl | ⟨h₂, t', rfl⟩ := List.eq_nil_or_concat h₂
    · obtain rfl := List.singleton_inj.1 (List.append_inj' heq rfl).2
      exact absurd hu hP
    · rw [List.concat_eq_append, ← List.cons_append, ← List.append_assoc] at heq
      obtain ⟨v, hv, hgoal⟩ := hfollowed h₁ u h₂ (List.append_inj' heq rfl).1 hu
      exact ⟨v, by simp [hv], hgoal⟩

end

/-! ### What is written last -/

/-- What was written last along some moves: what one of them writes, when none of those after it
does, or what was there before all of them. -/
inductive LastWritten {α : Type*} (writes : Move σ ℓ → α → Prop) (initial : α) :
    List (Move σ ℓ) → α → Prop
  | initial {h : List (Move σ ℓ)} (hquiet : ∀ t ∈ h, ∀ a, ¬ writes t a) :
    LastWritten writes initial h initial
  | written (h₁ : List (Move σ ℓ)) {t : Move σ ℓ} {h₂ : List (Move σ ℓ)} {a : α}
    (hwrites : writes t a) (hquiet : ∀ u ∈ h₂, ∀ a, ¬ writes u a) :
    LastWritten writes initial (h₁ ++ t :: h₂) a

section

variable {α : Type*} {writes : Move σ ℓ → α → Prop} {initial a : α} {h : List (Move σ ℓ)}
  {t : Move σ ℓ}

/-- A move that writes nothing leaves what was written last. -/
theorem LastWritten.concat (hlast : LastWritten writes initial h a)
    (hquiet : ∀ a, ¬ writes t a) : LastWritten writes initial (h ++ [t]) a := by
  cases hlast with
  | initial hnone =>
    refine .initial fun u hu ↦ ?_
    obtain hu | hu := List.mem_append.1 hu
    · exact hnone u hu
    · exact List.mem_singleton.1 hu ▸ hquiet
  | @written h₁ u h₂ _ hwrites hnone =>
    rw [List.append_assoc, List.cons_append]
    refine .written h₁ hwrites fun v hv ↦ ?_
    obtain hv | hv := List.mem_append.1 hv
    · exact hnone v hv
    · exact List.mem_singleton.1 hv ▸ hquiet

/-- The last move writes, or leaves what was written last. -/
theorem LastWritten.of_concat (hlast : LastWritten writes initial (h ++ [t]) a) :
    writes t a ∨ (∀ a, ¬ writes t a) ∧ LastWritten writes initial h a := by
  generalize heq : h ++ [t] = h' at hlast
  cases hlast with
  | initial hquiet =>
    subst heq
    refine .inr ⟨hquiet t (by simp), .initial fun u hu ↦ hquiet u (by simp [hu])⟩
  | @written h₁ u h₂ _ hwrites hquiet =>
    obtain rfl | ⟨h₂, t', rfl⟩ := List.eq_nil_or_concat h₂
    · obtain rfl := List.singleton_inj.1 (List.append_inj' heq rfl).2
      exact .inl hwrites
    · rw [List.concat_eq_append, ← List.cons_append, ← List.append_assoc] at heq
      obtain ⟨rfl, hlast⟩ := List.append_inj' heq rfl
      obtain rfl := List.singleton_inj.1 hlast
      exact .inr ⟨hquiet t (by simp), .written h₁ hwrites fun v hv ↦ hquiet v (by simp [hv])⟩

end

/-! ### Runs by computation -/

/-- The moves along a list of labels, when each of them has a next state. -/
def follow (next : σ → ℓ → Option σ) : σ → List ℓ → Option (List (Move σ ℓ) × σ)
  | s, [] => some ([], s)
  | s, l :: ls =>
    match next s l with
    | some s' => (follow next s' ls).map fun r ↦ (⟨s, l, s'⟩ :: r.1, r.2)
    | none => none

/-- The first move, and the rest. -/
theorem exists_of_follow_cons {next : σ → ℓ → Option σ} {l : ℓ} {ls : List ℓ}
    {h : List (Move σ ℓ)} {s s'' : σ} (hf : follow next s (l :: ls) = some (h, s'')) :
    ∃ s' h', next s l = some s' ∧ follow next s' ls = some (h', s'') ∧ h = ⟨s, l, s'⟩ :: h' := by
  rw [follow] at hf
  cases hs : next s l with
  | none =>
    rw [hs] at hf
    cases hf
  | some s' =>
    rw [hs] at hf
    obtain ⟨⟨h', s₁⟩, hf', heq⟩ := Option.map_eq_some_iff.1 hf
    cases heq
    exact ⟨s', h', rfl, hf', rfl⟩

theorem follow_cons {next : σ → ℓ → Option σ} {l : ℓ} {ls : List ℓ} {h : List (Move σ ℓ)}
    {s s' s'' : σ} (hs : next s l = some s') (hf : follow next s' ls = some (h, s'')) :
    follow next s (l :: ls) = some (⟨s, l, s'⟩ :: h, s'') := by
  rw [follow, hs]
  exact congrArg (Option.map _) hf

/-- Following one list of labels after another. -/
theorem follow_append {next : σ → ℓ → Option σ} {ls ls' : List ℓ} {h h' : List (Move σ ℓ)}
    {s s' s'' : σ} (hf : follow next s ls = some (h, s'))
    (hf' : follow next s' ls' = some (h', s'')) :
    follow next s (ls ++ ls') = some (h ++ h', s'') := by
  induction ls generalizing h s with
  | nil =>
    cases hf
    exact hf'
  | cons l ls ih =>
    obtain ⟨s₁, h₁, hs, hf₁, rfl⟩ := exists_of_follow_cons hf
    exact follow_cons hs (ih hf₁)

/-- Following labels continues a run. -/
theorem Run.follow {next : σ → ℓ → Option σ}
    (hnext : ∀ s l s', next s l = some s' → S.step s l s') {ls : List ℓ}
    {h h' : List (Move σ ℓ)} {s s' : σ} (hrun : S.Run h s)
    (hf : LabelledSystem.follow next s ls = some (h', s')) : S.Run (h ++ h') s' := by
  induction ls generalizing h h' s with
  | nil =>
    cases hf
    rwa [List.append_nil]
  | cons l ls ih =>
    obtain ⟨s₁, h₁, hs, hf₁, rfl⟩ := exists_of_follow_cons hf
    have hrest := ih (hrun.move (hnext s l s₁ hs)) hf₁
    rwa [List.append_assoc] at hrest

/-- Labels whose run passes a test. -/
theorem Run.exists_of_follow {next : σ → ℓ → Option σ}
    (hnext : ∀ s l s', next s l = some s' → S.step s l s') {s₀ : σ} (hs₀ : S.init s₀)
    (labels : List ℓ) (test : List (Move σ ℓ) → σ → Prop) [∀ h s, Decidable (test h s)]
    (htest : (LabelledSystem.follow next s₀ labels).any (fun r ↦ test r.1 r.2) = true) :
    ∃ h s, S.Run h s ∧ test h s := by
  obtain ⟨⟨h, s⟩, hfollow, htest⟩ := (Option.any_eq_true _ _).1 htest
  exact ⟨h, s, (Run.start hs₀).follow hnext hfollow, of_decide_eq_true htest⟩

end LabelledSystem
