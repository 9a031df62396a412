import Amanuensis.Foundation.Runs

/-!
# Systems inside of systems

A large system may show, at each of its states, the state of a smaller one that lives in it: nothing
as long as the small one has not started, and its state from then on. A move of the large system is
a move of the small one, or does not concern it. Then the moves that do, along a run of the large
system, make a run of the small one (`Projects.run`), and what all runs of the small system have in
common holds of each place where it lives.
-/

namespace LabelledSystem

variable {σ ℓ τ κ : Type*}

/-- The move that a state and its successor show, under a label. -/
def shown (view : σ → Option τ) (label : Move σ ℓ → Option κ) (t : Move σ ℓ) :
    Option (Move τ κ) :=
  match view t.source, label t, view t.target with
  | some s, some l, some s' => some ⟨s, l, s'⟩
  | _, _, _ => none

/-- The moves that a history shows. -/
def project (view : σ → Option τ) (label : Move σ ℓ → Option κ) (h : List (Move σ ℓ)) :
    List (Move τ κ) :=
  h.filterMap (shown view label)

/-- A step under a label, or none at all. -/
def Moves (T : LabelledSystem τ κ) (v : τ) : Option κ → τ → Prop
  | none, v' => v' = v
  | some l, v' => T.step v l v'

/-- **A system in another one**, as long as the moves of the large one meet `P`: it starts in an
initial state, at the start of the large one or later, and then it stays where it is or takes a
step. -/
structure Projects (S : LabelledSystem σ ℓ) (T : LabelledSystem τ κ) (P : Move σ ℓ → Prop)
    (I : σ → Prop) (view : σ → Option τ) (label : Move σ ℓ → Option κ) : Prop where
  start : ∀ s, S.init s → ∀ v ∈ view s, T.init v
  appear : ∀ s l s', I s → S.step s l s' → P ⟨s, l, s'⟩ → view s = none →
    ∀ v ∈ view s', T.init v
  go : ∀ s l s' v, I s → S.step s l s' → P ⟨s, l, s'⟩ → view s = some v →
    ∃ v', view s' = some v' ∧ T.Moves v (label ⟨s, l, s'⟩) v'

variable {S : LabelledSystem σ ℓ} {T : LabelledSystem τ κ} {P : Move σ ℓ → Prop} {I : σ → Prop}
  {view : σ → Option τ} {label : Move σ ℓ → Option κ} {h : List (Move σ ℓ)} {t : Move σ ℓ}

theorem project_concat (h : List (Move σ ℓ)) (t : Move σ ℓ) :
    project view label (h ++ [t]) =
      project view label h ++ (shown view label t).toList := by
  rw [project, List.filterMap_append]
  cases hs : shown view label t with
  | none => rw [List.filterMap_cons_none hs]; rfl
  | some u => rw [List.filterMap_cons_some hs]; rfl

theorem shown_eq_none_of_source (hsource : view t.source = none) : shown view label t = none := by
  rw [shown, hsource]

theorem shown_eq_none_of_label (hlabel : label t = none) : shown view label t = none := by
  rw [shown, hlabel]
  split <;> trivial

/-- A move is shown exactly by both of its states and its label. -/
theorem shown_eq_some_iff {u : Move τ κ} :
    shown view label t = some u ↔
      view t.source = some u.source ∧ label t = some u.label ∧ view t.target = some u.target := by
  obtain ⟨source, l, target⟩ := u
  rw [shown]
  constructor
  · intro heq
    split at heq
    next s l' s' hs hl hs' =>
      obtain ⟨rfl, rfl, rfl⟩ := Move.mk.inj (Option.some.inj heq)
      exact ⟨hs, hl, hs'⟩
    next => exact absurd heq (by simp)
  · rintro ⟨hs, hl, hs'⟩
    rw [hs, hl, hs']

/-- What is shown of a history is shown of one of its moves. -/
theorem mem_project_iff {u : Move τ κ} :
    u ∈ project view label h ↔ ∃ t ∈ h, view t.source = some u.source ∧
      label t = some u.label ∧ view t.target = some u.target := by
  rw [project, List.mem_filterMap]
  exact exists_congr fun t ↦ and_congr_right fun _ ↦ shown_eq_some_iff

/-- A run shows nothing of the small system, or one of its runs. -/
theorem Projects.run_cases (hprojects : Projects S T P I view label)
    (hinvariant : ∀ h s, S.Run h s → (∀ t ∈ h, P t) → I s) {h : List (Move σ ℓ)} {s : σ}
    (hrun : S.Run h s) (hP : ∀ t ∈ h, P t) :
    view s = none ∧ project view label h = [] ∨
      ∃ v, view s = some v ∧ T.Run (project view label h) v := by
  induction hrun with
  | @start s hs =>
    cases hview : view s with
    | none => exact .inl ⟨rfl, rfl⟩
    | some v => exact .inr ⟨v, rfl, .start (hprojects.start s hs v hview)⟩
  | @move h s s' l hrun hstep ih =>
    obtain ⟨hP, hlast⟩ := List.forall_mem_append.1 hP
    have hlast := hlast _ (List.mem_singleton_self _)
    have hI := hinvariant h s hrun hP
    rw [project_concat]
    obtain ⟨hsource, hnothing⟩ | ⟨v, hsource, hrun⟩ := ih hP
    · rw [hnothing, shown_eq_none_of_source hsource]
      cases hview : view s' with
      | none => exact .inl ⟨rfl, rfl⟩
      | some v =>
        exact .inr ⟨v, rfl, .start (hprojects.appear s l s' hI hstep hlast hsource v hview)⟩
    · obtain ⟨v', hview, hgo⟩ := hprojects.go s l s' v hI hstep hlast hsource
      refine .inr ⟨v', hview, ?_⟩
      cases hlabel : label ⟨s, l, s'⟩ with
      | none =>
        rw [hlabel] at hgo
        obtain rfl : v' = v := hgo
        rw [shown_eq_none_of_label hlabel]
        exact (List.append_nil _).symm ▸ hrun
      | some l' =>
        rw [hlabel] at hgo
        have hshown : shown view label ⟨s, l, s'⟩ = some ⟨v, l', v'⟩ :=
          shown_eq_some_iff.2 ⟨hsource, hlabel, hview⟩
        rw [hshown]
        exact hrun.move hgo

/-- **Runs project**: what a run shows of the small system is one of its runs. -/
theorem Projects.run (hprojects : Projects S T P I view label)
    (hinvariant : ∀ h s, S.Run h s → (∀ t ∈ h, P t) → I s) {h : List (Move σ ℓ)} {s : σ} {v : τ}
    (hrun : S.Run h s) (hP : ∀ t ∈ h, P t) (hview : view s = some v) :
    T.Run (project view label h) v := by
  obtain ⟨hnone, -⟩ | ⟨v', hview', hrun'⟩ := hprojects.run_cases hinvariant hrun hP
  · exact absurd (hnone.symm.trans hview) (by simp)
  · obtain rfl : v' = v := Option.some.inj (hview'.symm.trans hview)
    exact hrun'

end LabelledSystem
