import Mathlib.Data.List.Basic
import Mathlib.Data.List.Induction
import Mathlib.Data.List.TakeWhile

/-!
# Byte-at-a-time recognizers

The scanning substrate for an incremental parser: a machine that takes one symbol at a time, keeps
going until a step gives a verdict, and may be *paused* whenever an observable part of its state
changes. Nothing here knows what the symbols are or what is recognized.

## Three ways to run one machine

* `scan` runs it straight through a list of symbols, up to the first verdict.
* `pause` also stops at the first symbol after which the observation differs from the one the run
  started with — the state is then handed back together with the symbols not yet read.
* `pump` is the caller of `pause`: while the pause was not a verdict and the observation changed,
  it reports the new observation and resumes on the rest. `feed` drives `pump` over a sequence of
  reads.

## What is proved

`pump_eq` and `feed_eq`: pausing and cutting are invisible. Whatever the cut, the verdict, the
state and the number of symbols consumed are those of one straight scan of the concatenation, and
the reported observations are `changes` of it. `scan_collect` and `scan_takeWhile` describe a state
that loops on a class of symbols, which is how a grammar is read off a machine.
-/

/-- A machine that takes one symbol at a time. `none` asks for the next symbol; `some w` is a
verdict, after which the machine is not run any further. -/
structure Scanner (σ α ω : Type*) where
  /-- One symbol. -/
  step : σ → α → Option ω × σ

namespace Scanner

/-- What a run over some symbols leaves: the verdict if there was one, the state, and the symbols
that were not consumed. -/
@[ext]
structure Scan (σ α ω : Type*) where
  verdict : Option ω
  state : σ
  rest : List α

variable {σ α ω φ τ : Type*} (M : Scanner σ α ω)

/-! ### Straight runs -/

/-- Run up to the first verdict. -/
def scan (s : σ) : List α → Scan σ α ω
  | [] => ⟨none, s, []⟩
  | a :: as =>
    match M.step s a with
    | (none, s') => scan s' as
    | (some w, s') => ⟨some w, s', as⟩

@[simp] theorem scan_nil (s : σ) : M.scan s [] = ⟨none, s, []⟩ := rfl

theorem scan_cons_of_none {s s' : σ} {a : α} (h : M.step s a = (none, s')) (as : List α) :
    M.scan s (a :: as) = M.scan s' as := by
  rw [scan, h]

theorem scan_cons_of_some {s s' : σ} {a : α} {w : ω} (h : M.step s a = (some w, s'))
    (as : List α) : M.scan s (a :: as) = ⟨some w, s', as⟩ := by
  rw [scan, h]

/-- A run without verdict consumes everything. -/
theorem rest_eq_nil_of_verdict_none {s : σ} {as : List α} (h : (M.scan s as).verdict = none) :
    (M.scan s as).rest = [] := by
  induction as generalizing s with
  | nil => rfl
  | cons a as ih =>
    rcases hs : M.step s a with ⟨_ | w, s'⟩
    · rw [M.scan_cons_of_none hs] at h ⊢
      exact ih h
    · rw [M.scan_cons_of_some hs] at h
      exact absurd h (by simp)

/-- What is left over is a suffix of what was offered. -/
theorem rest_suffix (s : σ) (as : List α) : (M.scan s as).rest <:+ as := by
  induction as generalizing s with
  | nil => exact List.suffix_refl _
  | cons a as ih =>
    rcases hs : M.step s a with ⟨_ | w, s'⟩
    · rw [M.scan_cons_of_none hs]
      exact (ih s').trans (List.suffix_cons a as)
    · rw [M.scan_cons_of_some hs]
      exact List.suffix_cons a as

/-- A verdict takes a symbol. -/
theorem length_rest_lt_of_verdict_some {s : σ} {as : List α} {w : ω}
    (h : (M.scan s as).verdict = some w) : (M.scan s as).rest.length < as.length := by
  induction as generalizing s with
  | nil => exact absurd h (by simp)
  | cons a as ih =>
    rcases hs : M.step s a with ⟨_ | w', s'⟩
    · rw [M.scan_cons_of_none hs] at h ⊢
      exact (ih h).trans (Nat.lt_succ_self _)
    · rw [M.scan_cons_of_some hs]
      exact Nat.lt_succ_self _

/-- **Runs compose.** A run without verdict is continued on what follows. -/
theorem scan_append_of_none {s : σ} {as : List α} (h : (M.scan s as).verdict = none)
    (bs : List α) : M.scan s (as ++ bs) = M.scan (M.scan s as).state bs := by
  induction as generalizing s with
  | nil => rfl
  | cons a as ih =>
    rcases hs : M.step s a with ⟨_ | w, s'⟩
    · rw [M.scan_cons_of_none hs] at h
      rw [List.cons_append, M.scan_cons_of_none hs, M.scan_cons_of_none hs]
      exact ih h
    · rw [M.scan_cons_of_some hs] at h
      exact absurd h (by simp)

/-- A verdict is not revised by what follows; the extra symbols are left over. -/
theorem scan_append_of_some {s : σ} {as : List α} {w : ω} (h : (M.scan s as).verdict = some w)
    (bs : List α) :
    M.scan s (as ++ bs) = ⟨some w, (M.scan s as).state, (M.scan s as).rest ++ bs⟩ := by
  induction as generalizing s with
  | nil => exact absurd h (by simp)
  | cons a as ih =>
    rcases hs : M.step s a with ⟨_ | w', s'⟩
    · rw [M.scan_cons_of_none hs] at h ⊢
      rw [List.cons_append, M.scan_cons_of_none hs]
      exact ih h
    · rw [M.scan_cons_of_some hs] at h
      obtain rfl : w' = w := by simpa using h
      rw [List.cons_append, M.scan_cons_of_some hs, M.scan_cons_of_some hs]

/-- A verdict on a prefix is the verdict on the whole. -/
theorem verdict_append_of_some {s : σ} {as : List α} {w : ω}
    (h : (M.scan s as).verdict = some w) (bs : List α) :
    (M.scan s (as ++ bs)).verdict = some w := by
  rw [M.scan_append_of_some h]

/-- The symbol at which a verdict is given. -/
theorem exists_step_of_verdict_some {s : σ} {as : List α} {w : ω}
    (h : (M.scan s as).verdict = some w) :
    ∃ bs a, as = bs ++ a :: (M.scan s as).rest ∧ (M.scan s bs).verdict = none ∧
      M.step (M.scan s bs).state a = (some w, (M.scan s as).state) := by
  induction as generalizing s with
  | nil => exact absurd h (by simp)
  | cons a as ih =>
    rcases hs : M.step s a with ⟨_ | w', s'⟩
    · rw [M.scan_cons_of_none hs] at h ⊢
      obtain ⟨bs, b, heq, hbs, hstep⟩ := ih h
      refine ⟨a :: bs, b, by rw [List.cons_append, ← heq], ?_, ?_⟩
      · rw [M.scan_cons_of_none hs]
        exact hbs
      · rw [M.scan_cons_of_none hs]
        exact hstep
    · rw [M.scan_cons_of_some hs] at h ⊢
      obtain rfl : w' = w := by simpa using h
      exact ⟨[], a, rfl, rfl, hs⟩

/-- **Step induction.** What holds at the start and survives every step holds of the state a scan
leaves. -/
theorem scan_state_induction {P : σ → Prop} (hstep : ∀ s a, P s → P (M.step s a).2) {s : σ}
    (hs : P s) (as : List α) : P (M.scan s as).state := by
  induction as generalizing s with
  | nil => exact hs
  | cons a as ih =>
    have hnext := hstep s a hs
    rcases h : M.step s a with ⟨_ | w, s'⟩ <;> rw [h] at hnext
    · rw [M.scan_cons_of_none h]
      exact ih hnext
    · rw [M.scan_cons_of_some h]
      exact hnext

/-- **Step induction, as long as there is no verdict.** -/
theorem scan_state_induction_of_none {P : σ → Prop}
    (hstep : ∀ s a s', P s → M.step s a = (none, s') → P s') {s : σ} (hs : P s) {as : List α}
    (h : (M.scan s as).verdict = none) : P (M.scan s as).state := by
  induction as generalizing s with
  | nil => exact hs
  | cons a as ih =>
    rcases hstep' : M.step s a with ⟨_ | w, s'⟩
    · rw [M.scan_cons_of_none hstep'] at h ⊢
      exact ih (hstep s a s' hs hstep') h
    · rw [M.scan_cons_of_some hstep'] at h
      exact absurd h (by simp)

theorem scan_singleton (s : σ) (a : α) : M.scan s [a] = ⟨(M.step s a).1, (M.step s a).2, []⟩ := by
  rcases h : M.step s a with ⟨_ | w, s'⟩
  · rw [M.scan_cons_of_none h, scan_nil]
  · rw [M.scan_cons_of_some h]

theorem scan_concat_of_none {s : σ} {as : List α} (h : (M.scan s as).verdict = none) (a : α) :
    M.scan s (as ++ [a]) =
      ⟨(M.step (M.scan s as).state a).1, (M.step (M.scan s as).state a).2, []⟩ := by
  rw [M.scan_append_of_none h, scan_singleton]

/-- **Induction on what has been read**: what holds of the start and survives every step without
verdict holds of the state a run leaves and of the symbols it has read. -/
theorem scan_induction_of_none {P : List α → σ → Prop} {s : σ} (hs : P [] s)
    (hstep : ∀ as a s', (M.scan s as).verdict = none → P as (M.scan s as).state →
      M.step (M.scan s as).state a = (none, s') → P (as ++ [a]) s')
    {as : List α} (h : (M.scan s as).verdict = none) : P as (M.scan s as).state := by
  induction as using List.reverseRecOn with
  | nil => exact hs
  | append_singleton as a ih =>
    have hnone : (M.scan s as).verdict = none := by
      rcases hv : (M.scan s as).verdict with - | w
      · rfl
      · rw [M.verdict_append_of_some hv] at h
        exact absurd h (by simp)
    rw [M.scan_concat_of_none hnone] at h ⊢
    exact hstep as a _ hnone (ih hnone) (Prod.ext h rfl)

/-- Before the symbol of the verdict there is no verdict. -/
theorem verdict_none_of_prefix {s : σ} {as bs : List α} (h : (M.scan s as).rest = [])
    (hlt : bs <+: as) (hne : bs ≠ as) : (M.scan s bs).verdict = none := by
  obtain ⟨cs, rfl⟩ := hlt
  rcases hv : (M.scan s bs).verdict with - | w
  · rfl
  · rw [M.scan_append_of_some hv] at h
    exact absurd ((List.append_eq_nil_iff.1 h).2) fun hnil ↦ hne (by rw [hnil, List.append_nil])

/-! ### Viable states -/

/-- Some symbols lead to the verdict. -/
def Viable (w : ω) (s : σ) : Prop := ∃ as, (M.scan s as).verdict = some w

variable {M}

theorem Viable.of_step {w : ω} {s s' : σ} {a : α} (h : M.step s a = (none, s'))
    (hs' : M.Viable w s') : M.Viable w s := by
  obtain ⟨as, has⟩ := hs'
  exact ⟨a :: as, by rwa [M.scan_cons_of_none h]⟩

variable (M)

/-! ### Simulation -/

/-- **Forgetting state.** If `f` carries the steps of `M` to those of `N`, it carries the scans. -/
theorem scan_map {σ' : Type*} {N : Scanner σ' α ω} (f : σ → σ')
    (hstep : ∀ s a, N.step (f s) a = ((M.step s a).1, f (M.step s a).2)) (s : σ) (as : List α) :
    N.scan (f s) as =
      ⟨(M.scan s as).verdict, f (M.scan s as).state, (M.scan s as).rest⟩ := by
  induction as generalizing s with
  | nil => rfl
  | cons a as ih =>
    have hN := hstep s a
    rcases hs : M.step s a with ⟨_ | w, s'⟩ <;> rw [hs] at hN
    · rw [M.scan_cons_of_none hs, N.scan_cons_of_none hN]
      exact ih s'
    · rw [M.scan_cons_of_some hs, N.scan_cons_of_some hN]

/-! ### Annotation -/

/-- The machine with a note kept along. `note` says how a symbol changes the note, given the state
the symbol is read in and the state it leads to. -/
def annotate (note : τ → σ → α → σ → τ) : Scanner (σ × τ) α ω where
  step s a := ((M.step s.1 a).1, ((M.step s.1 a).2, note s.2 s.1 a (M.step s.1 a).2))

theorem step_annotate {note : τ → σ → α → σ → τ} {s s' : σ} {a : α} {v : Option ω}
    (h : M.step s a = (v, s')) (t : τ) :
    (M.annotate note).step (s, t) a = (v, (s', note t s a s')) := by
  simp only [annotate, h]

/-- **Notes are invisible** to the run. -/
theorem scan_annotate (note : τ → σ → α → σ → τ) (s : σ) (t : τ) (as : List α) :
    M.scan s as =
      ⟨((M.annotate note).scan (s, t) as).verdict, ((M.annotate note).scan (s, t) as).state.1,
        ((M.annotate note).scan (s, t) as).rest⟩ :=
  (M.annotate note).scan_map Prod.fst (fun _ _ ↦ rfl) (s, t) as

/-! ### Refusals -/

section Refusals

variable (refused : σ → σ → Bool) (bad : ω)

/-- The machine that ends with `bad` at a step from one state to another that is refused. -/
def refuse : Scanner σ α ω where
  step s a :=
    match M.step s a with
    | (none, s') => if refused s s' then (some bad, s') else (none, s')
    | (some w, s') => (some w, s')

variable {refused bad}

theorem step_refuse_of_none {s s' : σ} {a : α} (h : M.step s a = (none, s'))
    (hs : refused s s' = false) : (M.refuse refused bad).step s a = (none, s') := by
  simp only [refuse, h, hs, Bool.false_eq_true, if_false]

theorem step_refuse_of_refused {s s' : σ} {a : α} (h : M.step s a = (none, s'))
    (hs : refused s s' = true) : (M.refuse refused bad).step s a = (some bad, s') := by
  simp only [refuse, h, hs, if_true]

theorem step_refuse_of_some {s s' : σ} {a : α} {w : ω} (h : M.step s a = (some w, s')) :
    (M.refuse refused bad).step s a = (some w, s') := by
  simp only [refuse, h]

/-- Where nothing is refused it is the machine itself. -/
theorem refuse_of_forall (h : ∀ s s', refused s s' = false) : M.refuse refused bad = M := by
  refine congrArg Scanner.mk (funext₂ fun s a ↦ ?_)
  rcases hs : M.step s a with ⟨_ | w, s'⟩
  · simp only [h, Bool.false_eq_true, if_false]
  · rfl

/-- **A machine that refuses** runs as the machine does, up to the first step it refuses. -/
theorem scan_refuse (s : σ) (as : List α) :
    (M.refuse refused bad).scan s as = M.scan s as ∨
      ∃ before a after s', as = before ++ a :: after ∧ (M.scan s before).verdict = none ∧
        M.step (M.scan s before).state a = (none, s') ∧
        refused (M.scan s before).state s' = true ∧
        (M.refuse refused bad).scan s as = ⟨some bad, s', after⟩ := by
  induction as generalizing s with
  | nil => exact .inl rfl
  | cons a as ih =>
    rcases hs : M.step s a with ⟨_ | w, s'⟩
    · cases hrefused : refused s s' with
      | true =>
        refine .inr ⟨[], a, as, s', rfl, rfl, hs, hrefused, ?_⟩
        exact scan_cons_of_some _ (M.step_refuse_of_refused hs hrefused) as
      | false =>
        rw [scan_cons_of_none _ (M.step_refuse_of_none hs hrefused), M.scan_cons_of_none hs]
        refine (ih s').imp_right ?_
        rintro ⟨before, b, after, s'', rfl, hnone, hstep, href, hscan⟩
        refine ⟨a :: before, b, after, s'', rfl, ?_⟩
        rw [M.scan_cons_of_none hs]
        exact ⟨hnone, hstep, href, hscan⟩
    · rw [scan_cons_of_some _ (M.step_refuse_of_some hs), M.scan_cons_of_some hs]
      exact .inl rfl

end Refusals

/-! ### Looping states

A family of states `g acc` that collects symbols of a class `p` and leaves on any other symbol. -/

/-- Collecting a block of the class. -/
theorem scan_collect {g : List α → σ} {p : α → Bool}
    (hloop : ∀ acc a, p a = true → M.step (g acc) a = (none, g (acc ++ [a]))) :
    ∀ (as : List α), (∀ a ∈ as, p a = true) → ∀ (acc bs : List α),
      M.scan (g acc) (as ++ bs) = M.scan (g (acc ++ as)) bs := by
  intro as
  induction as with
  | nil => intro _ acc bs; simp
  | cons a as ih =>
    intro hp acc bs
    have ha : p a = true := hp a List.mem_cons_self
    have has : ∀ b ∈ as, p b = true := fun b hb ↦ hp b (List.mem_cons_of_mem a hb)
    rw [List.cons_append, M.scan_cons_of_none (hloop acc a ha), ih has, List.append_assoc,
      List.singleton_append]

/-- **The loop, exactly**: it collects the longest block of the class, and then either the input
is over or the first symbol outside the class decides. -/
theorem scan_takeWhile {g : List α → σ} {p : α → Bool}
    (hloop : ∀ acc a, p a = true → M.step (g acc) a = (none, g (acc ++ [a])))
    (acc as : List α) :
    (as = as.takeWhile p ∧ M.scan (g acc) as = ⟨none, g (acc ++ as), []⟩) ∨
      ∃ t a r, as = t ++ a :: r ∧ (∀ b ∈ t, p b = true) ∧ p a = false ∧
        M.scan (g acc) as = M.scan (g (acc ++ t)) (a :: r) := by
  have ht : ∀ b ∈ as.takeWhile p, p b = true := fun b hb ↦ List.mem_takeWhile_imp hb
  rcases hd : as.dropWhile p with - | ⟨a, r⟩
  · have has : as = as.takeWhile p := by
      conv_lhs => rw [← List.takeWhile_append_dropWhile (p := p) (l := as), hd, List.append_nil]
    refine Or.inl ⟨has, ?_⟩
    have h := M.scan_collect hloop (as.takeWhile p) ht acc []
    rw [← has, List.append_nil] at h
    rw [h, scan_nil]
  · have has : as = as.takeWhile p ++ a :: r := by
      rw [← hd, List.takeWhile_append_dropWhile]
    refine Or.inr ⟨as.takeWhile p, a, r, has, ht, ?_, ?_⟩
    · have := List.head_dropWhile_not p (l := as) (by rw [hd]; simp)
      simpa [hd] using this
    · conv_lhs => rw [has]
      exact M.scan_collect hloop _ ht acc _

/-! ### Pausing on a change of observation -/

section Pausing

variable [DecidableEq φ] (obs : σ → φ)

/-- Run until a verdict, or until the observation differs from `start`. -/
def pause (start : φ) (s : σ) : List α → Scan σ α ω
  | [] => ⟨none, s, []⟩
  | a :: as =>
    match M.step s a with
    | (some w, s') => ⟨some w, s', as⟩
    | (none, s') => if obs s' = start then pause start s' as else ⟨none, s', as⟩

/-- Where the observation never changes there is no pause. -/
theorem pause_eq_scan {start : φ} {s : σ}
    (hobs : ∀ s a s', obs s = start → M.step s a = (none, s') → obs s' = start)
    (hs : obs s = start) (as : List α) : M.pause obs start s as = M.scan s as := by
  induction as generalizing s with
  | nil => rfl
  | cons a as ih =>
    rcases hstep : M.step s a with ⟨_ | w, s'⟩
    · have hs' := hobs s a s' hs hstep
      rw [M.scan_cons_of_none hstep, ← ih hs', pause, hstep]
      exact if_pos hs'
    · rw [M.scan_cons_of_some hstep, pause, hstep]

/-- The caller of `pause`: report a changed observation and resume on the rest. The first argument
bounds the number of calls; `pump_eq` says how many suffice. -/
def pump (notify : φ → τ → τ) : ℕ → τ → σ → List α → Option (τ × Scan σ α ω)
  | 0, _, _, _ => none
  | n + 1, t, s, as =>
    let r := M.pause obs (obs s) s as
    if r.verdict.isNone ∧ obs r.state ≠ obs s then
      pump notify n (notify (obs r.state) t) r.state r.rest
    else some (t, r)

/-- The observations a straight run goes through, one entry for each change. -/
def changes (s : σ) : List α → List φ
  | [] => []
  | a :: as =>
    match M.step s a with
    | (none, s') => if obs s' = obs s then changes s' as else obs s' :: changes s' as
    | (some _, _) => []

theorem changes_cons_of_eq {s s' : σ} {a : α} (h : M.step s a = (none, s'))
    (ho : obs s' = obs s) (as : List α) : M.changes obs s (a :: as) = M.changes obs s' as := by
  rw [changes, h]
  exact if_pos ho

theorem changes_cons_of_ne {s s' : σ} {a : α} (h : M.step s a = (none, s'))
    (ho : obs s' ≠ obs s) (as : List α) :
    M.changes obs s (a :: as) = obs s' :: M.changes obs s' as := by
  rw [changes, h]
  exact if_neg ho

theorem changes_cons_of_some {s s' : σ} {a : α} {w : ω} (h : M.step s a = (some w, s'))
    (as : List α) : M.changes obs s (a :: as) = [] := by
  rw [changes, h]

theorem changes_append_of_none {s : σ} {as : List α} (h : (M.scan s as).verdict = none)
    (bs : List α) :
    M.changes obs s (as ++ bs) =
      M.changes obs s as ++ M.changes obs (M.scan s as).state bs := by
  induction as generalizing s with
  | nil => rfl
  | cons a as ih =>
    rcases hs : M.step s a with ⟨_ | w, s'⟩
    · rw [M.scan_cons_of_none hs] at h ⊢
      rw [List.cons_append]
      by_cases ho : obs s' = obs s
      · rw [M.changes_cons_of_eq obs hs ho, M.changes_cons_of_eq obs hs ho, ih h]
      · rw [M.changes_cons_of_ne obs hs ho, M.changes_cons_of_ne obs hs ho, ih h,
          List.cons_append]
    · rw [M.scan_cons_of_some hs] at h
      exact absurd h (by simp)

theorem changes_append_of_some {s : σ} {as : List α} {w : ω}
    (h : (M.scan s as).verdict = some w) (bs : List α) :
    M.changes obs s (as ++ bs) = M.changes obs s as := by
  induction as generalizing s with
  | nil => exact absurd h (by simp)
  | cons a as ih =>
    rw [List.cons_append]
    rcases hs : M.step s a with ⟨_ | w', s'⟩
    · rw [M.scan_cons_of_none hs] at h
      by_cases ho : obs s' = obs s
      · rw [M.changes_cons_of_eq obs hs ho, M.changes_cons_of_eq obs hs ho, ih h]
      · rw [M.changes_cons_of_ne obs hs ho, M.changes_cons_of_ne obs hs ho, ih h]
    · rw [M.changes_cons_of_some obs hs, M.changes_cons_of_some obs hs]

theorem pause_cons_of_eq {start : φ} {s s' : σ} {a : α} (h : M.step s a = (none, s'))
    (ho : obs s' = start) (as : List α) :
    M.pause obs start s (a :: as) = M.pause obs start s' as := by
  rw [pause, h]
  exact if_pos ho

theorem pause_cons_of_ne {start : φ} {s s' : σ} {a : α} (h : M.step s a = (none, s'))
    (ho : obs s' ≠ start) (as : List α) : M.pause obs start s (a :: as) = ⟨none, s', as⟩ := by
  rw [pause, h]
  exact if_neg ho

theorem pause_cons_of_some {s s' : σ} {a : α} {w : ω} (h : M.step s a = (some w, s'))
    (start : φ) (as : List α) : M.pause obs start s (a :: as) = ⟨some w, s', as⟩ := by
  rw [pause, h]

/-- A symbol that leaves the observation alone is invisible to the caller of `pause`. -/
theorem pump_cons_of_eq (notify : φ → τ → τ) {s s' : σ} {a : α}
    (h : M.step s a = (none, s')) (ho : obs s' = obs s) (n : ℕ) (t : τ) (as : List α) :
    M.pump obs notify (n + 1) t s (a :: as) = M.pump obs notify (n + 1) t s' as := by
  simp only [pump, M.pause_cons_of_eq obs h ho, ho]

/-- A symbol that changes the observation is reported, and costs one call. -/
theorem pump_cons_of_ne (notify : φ → τ → τ) {s s' : σ} {a : α}
    (h : M.step s a = (none, s')) (ho : obs s' ≠ obs s) (n : ℕ) (t : τ) (as : List α) :
    M.pump obs notify (n + 1) t s (a :: as) =
      M.pump obs notify n (notify (obs s') t) s' as := by
  simp [pump, M.pause_cons_of_ne obs h ho, ho]

theorem pump_cons_of_some (notify : φ → τ → τ) {s s' : σ} {a : α} {w : ω}
    (h : M.step s a = (some w, s')) (n : ℕ) (t : τ) (as : List α) :
    M.pump obs notify (n + 1) t s (a :: as) = some (t, ⟨some w, s', as⟩) := by
  simp [pump, M.pause_cons_of_some obs h]

/-- **Pausing is invisible.** With more calls allowed than there are symbols, the caller ends with
the straight scan, having reported exactly the changes. -/
theorem pump_eq (notify : φ → τ → τ) {n : ℕ} {as : List α} (hn : as.length < n) (t : τ) (s : σ) :
    M.pump obs notify n t s as =
      some ((M.changes obs s as).foldl (fun t o ↦ notify o t) t, M.scan s as) := by
  induction as generalizing n t s with
  | nil =>
    obtain ⟨n, rfl⟩ := Nat.exists_eq_add_of_lt hn
    simp [pump, pause, changes]
  | cons a as ih =>
    obtain ⟨n, rfl⟩ : ∃ k, n = k + 1 := ⟨n - 1, by omega⟩
    have hlen : as.length < n := by simpa using hn
    rcases hs : M.step s a with ⟨_ | w, s'⟩
    · rw [M.scan_cons_of_none hs]
      by_cases ho : obs s' = obs s
      · rw [M.pump_cons_of_eq obs notify hs ho, M.changes_cons_of_eq obs hs ho,
          ih (by omega)]
      · rw [M.pump_cons_of_ne obs notify hs ho, M.changes_cons_of_ne obs hs ho, ih hlen,
          List.foldl_cons]
    · rw [M.pump_cons_of_some obs notify hs, M.changes_cons_of_some obs hs,
        M.scan_cons_of_some hs, List.foldl_nil]

/-! ### Feeding reads -/

/-- Drive `pump` over a sequence of reads: a read that ends without verdict is followed by the
next one. Returns the notes, the verdict, the state, and the number of symbols consumed. -/
def feed (notify : φ → τ → τ) (t : τ) (s : σ) (consumed : ℕ) :
    List (List α) → Option (τ × Option ω × σ × ℕ)
  | [] => some (t, none, s, consumed)
  | r :: rs =>
    match M.pump obs notify (r.length + 1) t s r with
    | none => none
    | some (t', ⟨none, s', rest⟩) =>
      feed notify t' s' (consumed + (r.length - rest.length)) rs
    | some (t', ⟨some w, s', rest⟩) =>
      some (t', some w, s', consumed + (r.length - rest.length))

/-- **Cutting is invisible.** Feeding any reads ends as one straight scan of their concatenation:
same verdict, same state, same number of symbols consumed, and the changes reported in order. -/
theorem feed_eq (notify : φ → τ → τ) (t : τ) (s : σ) (consumed : ℕ) (reads : List (List α)) :
    M.feed obs notify t s consumed reads =
      some ((M.changes obs s reads.flatten).foldl (fun t o ↦ notify o t) t,
        (M.scan s reads.flatten).verdict, (M.scan s reads.flatten).state,
        consumed + (reads.flatten.length - (M.scan s reads.flatten).rest.length)) := by
  induction reads generalizing t s consumed with
  | nil => simp [feed, changes]
  | cons r rs ih =>
    have hpump := M.pump_eq obs notify (Nat.lt_succ_self r.length) t s
    rcases hr : M.scan s r with ⟨_ | w, s', rest⟩
    · have hv : (M.scan s r).verdict = none := by rw [hr]
      have hrest : rest = [] := by simpa [hr] using M.rest_eq_nil_of_verdict_none hv
      have hle := (M.rest_suffix s' rs.flatten).length_le
      rw [feed, hpump, hr]
      simp only [hrest, List.length_nil, Nat.sub_zero]
      rw [ih, List.flatten_cons, M.scan_append_of_none hv, M.changes_append_of_none obs hv, hr,
        List.foldl_append, List.length_append]
      congr 4
      dsimp only
      omega
    · have hv : (M.scan s r).verdict = some w := by rw [hr]
      rw [feed, hpump, hr]
      simp only
      rw [List.flatten_cons, M.scan_append_of_some hv, M.changes_append_of_some obs hv, hr]
      simp only [List.length_append]
      congr 4
      omega

end Pausing

end Scanner
