import Mathlib.Algebra.Ring.Int.Defs
import Mathlib.Data.List.Perm.Basic
import Mathlib.Data.Option.Basic
import Mathlib.Logic.Function.Basic
import Amanuensis.Foundation.Runs

/-!
# Reference holders

`RefHolder` owns one count of the object it refers to. A program constructs holders, hands
references in and takes them out, moves them from one holder to another, and destroys the holders.

Each holder has an account of the counts of each object: those it has received, and those it has
paid out. The account is in balance but for one thing (`accounts_of_run`): `attach` takes a
reference to the object that the holder refers to already for no reference at all, so that its count
is lost. By the time all holders are gone every count has been released or handed out exactly if
this has not happened (`balances_iff`).
-/

open LabelledSystem

namespace Amanuensis

namespace Trusty

/-- A holder of a reference; none is the null reference. -/
structure RefHolder (T : Type) where
  ref : Option T := none
  deriving DecidableEq, Repr

namespace RefHolder

variable {ι T : Type} [DecidableEq ι] [DecidableEq T]

/-! ### Methods -/

/-- The reference that is handed out, and the holder after it. -/
def detach (holder : RefHolder T) : Option T × RefHolder T :=
  (holder.ref, { holder with ref := none })

/-- The reference that is released, and the holder after it. -/
def doRelease (holder : RefHolder T) : Option T × RefHolder T :=
  (holder.ref, { holder with ref := none })

/-- Release the reference, if there is one. -/
def reset (holder : RefHolder T) : Option T × RefHolder T := holder.doRelease

/-- Take over a count of a reference: the one held before is released, unless it is the same. -/
def attach (ref : Option T) (holder : RefHolder T) : Option T × RefHolder T :=
  if ref ≠ holder.ref then (holder.ref, { holder with ref := ref }) else (none, holder)

/-- Assignment of a reference. -/
def assign (ref : Option T) (holder : RefHolder T) : Option T × RefHolder T :=
  let (released, holder) := holder.reset
  (released, { holder with ref := ref })

/-! ### Programs -/

/-- What happens to one count of an object. -/
inductive Event (ι T : Type)
  | handedIn (i : ι) (x : T)
  | handedOut (i : ι) (x : T)
  | moved (source target : ι) (x : T)
  | released (i : ι) (x : T)
  deriving DecidableEq, Repr

/-- The holders that there are, and what has happened. -/
structure Holders (ι T : Type) where
  holders : ι → Option (RefHolder T) := fun _ ↦ none
  trace : List (Event ι T) := []

/-- What a program does with its holders. -/
inductive Statement (ι T : Type)
  | construct (i : ι)
  | constructFrom (i : ι) (ref : Option T)
  | moveConstruct (i other : ι)
  | assign (i : ι) (ref : Option T)
  | attach (i : ι) (ref : Option T)
  | detach (i : ι)
  | reset (i : ι)
  | moveAssign (i other : ι)
  | destroy (i : ι)
  deriving DecidableEq, Repr

namespace Holders

/-- Set a holder, and note what has happened to the counts. -/
def put (i : ι) (holder : Option (RefHolder T)) (events : List (Event ι T)) (s : Holders ι T) :
    Holders ι T :=
  { holders := Function.update s.holders i holder, trace := s.trace ++ events }

/-- The reference of a holder, if there is one. -/
def refOf (s : Holders ι T) (i : ι) : Option T := (s.holders i).bind fun holder ↦ holder.ref

end Holders

/-- A count for each reference that is not null. -/
def events (f : T → Event ι T) (ref : Option T) : List (Event ι T) := ref.toList.map f

/-- A statement, where it makes sense: a holder is constructed where there is none. -/
def exec (s : Holders ι T) : Statement ι T → Option (Holders ι T)
  | .construct i => do
    guard (s.holders i = none)
    return s.put i (some {}) []
  | .constructFrom i ref => do
    guard (s.holders i = none)
    return s.put i (some { ref := ref }) (events (.handedIn i) ref)
  | .moveConstruct i other => do
    guard (s.holders i = none)
    let (ref, holder) := detach (← s.holders other)
    let s := s.put other (some holder) []
    return s.put i (some { ref := ref }) (events (.moved other i) ref)
  | .assign i ref => do
    let (released, holder) := assign ref (← s.holders i)
    return s.put i (some holder) (events (.handedIn i) ref ++ events (.released i) released)
  | .attach i ref => do
    let (released, holder) := attach ref (← s.holders i)
    return s.put i (some holder) (events (.handedIn i) ref ++ events (.released i) released)
  | .detach i => do
    let (ref, holder) := detach (← s.holders i)
    return s.put i (some holder) (events (.handedOut i) ref)
  | .reset i => do
    let (released, holder) := reset (← s.holders i)
    return s.put i (some holder) (events (.released i) released)
  | .moveAssign i other => do
    let (ref, holder) := detach (← s.holders other)
    let s := s.put other (some holder) []
    -- assigned to itself, the holder has no reference by now
    let (released, holder) := attach ref (← s.holders i)
    return s.put i (some holder) (events (.moved other i) ref ++ events (.released i) released)
  | .destroy i => do
    let (released, _) := doRelease (← s.holders i)
    return s.put i none (events (.released i) released)

/-- **Programs over holders**, from none on. -/
def system (ι T : Type) [DecidableEq ι] [DecidableEq T] :
    LabelledSystem (Holders ι T) (Statement ι T) where
  init s := s = {}
  step s l s' := exec s l = some s'

/-! ### What is claimed, and when -/

variable {s s' : Holders ι T} {l : Statement ι T} {i j k : ι} {x : T} {ref : Option T}
  {h : List (Move (Holders ι T) (Statement ι T))} {t : Move (Holders ι T) (Statement ι T)}

/-- How often a count of an object has been handed in. -/
def handedIn (x : T) (trace : List (Event ι T)) : ℕ :=
  trace.countP fun | .handedIn _ y => y = x | _ => false

/-- How many counts of an object have been handed out. -/
def handedOut (x : T) (trace : List (Event ι T)) : ℕ :=
  trace.countP fun | .handedOut _ y => y = x | _ => false

/-- How many counts of an object have been moved from one holder to another. -/
def moved (x : T) (trace : List (Event ι T)) : ℕ :=
  trace.countP fun | .moved _ _ y => y = x | _ => false

/-- How many counts of an object have been released. -/
def released (x : T) (trace : List (Event ι T)) : ℕ :=
  trace.countP fun | .released _ y => y = x | _ => false

/-- Who receives a count of an object. -/
def Event.receiver? (x : T) : Event ι T → Option ι
  | handedIn i y | moved _ i y => if y = x then some i else none
  | handedOut _ _ | released _ _ => none

/-- Who pays a count out. -/
def Event.payer? (x : T) : Event ι T → Option ι
  | handedOut i y | moved i _ y | released i y => if y = x then some i else none
  | handedIn _ _ => none

/-- The holders that have received a count of an object, one entry for each. -/
def receivers (x : T) (trace : List (Event ι T)) : List ι := trace.filterMap (Event.receiver? x)

/-- The holders that have given a count of an object away, one entry for each. -/
def payers (x : T) (trace : List (Event ι T)) : List ι := trace.filterMap (Event.payer? x)

/-- **The counts are in balance** in a program that leads to a state. -/
structure Balances (h : List (Move (Holders ι T) (Statement ι T))) (s : Holders ι T) : Prop where
  /-- Every count that has been handed in has been released once or handed out once. -/
  settled : ∀ x, handedIn x s.trace = released x s.trace + handedOut x s.trace
  /-- At no time a holder refers to an object whose counts it has paid out again. -/
  backed : ∀ t ∈ h, ∀ i x, t.target.refOf i = some x →
    (payers x t.target.trace).count i < (receivers x t.target.trace).count i

/-- **A count is doubled**: `attach` hands a holder a reference to the object that it refers to
already. -/
def Doubles (t : Move (Holders ι T) (Statement ι T)) : Prop :=
  ∃ i x, t.source.refOf i = some x ∧
    (t.label = .attach i (some x) ∨
      ∃ other ≠ i, t.label = .moveAssign i other ∧ t.source.refOf other = some x)

/-! ### Accounts -/

/-- Who loses a count of an object. -/
def loser? (x : T) (t : Move (Holders ι T) (Statement ι T)) : Option ι :=
  match t.label with
  | .attach i ref => if ref = some x ∧ t.source.refOf i = some x then some i else none
  | .moveAssign i other =>
    if i ≠ other ∧ t.source.refOf other = some x ∧ t.source.refOf i = some x then some i else none
  | _ => none

theorem doubles_iff : Doubles t ↔ ∃ x, loser? x t ≠ none := by
  obtain ⟨s, l, s'⟩ := t
  cases l with
  | attach i ref => simp [Doubles, loser?, and_comm]
  | moveAssign i other => simp [Doubles, loser?]; grind
  | _ => simp [Doubles, loser?]

/-- The count that a holder has. -/
def owned (s : Holders ι T) (i : ι) (x : T) : ℕ := if s.refOf i = some x then 1 else 0

/-- **The accounts**: what each holder has received it has paid out, lost, or still has. -/
def Accounts (h : List (Move (Holders ι T) (Statement ι T))) (s : Holders ι T) : Prop :=
  ∀ x i, (receivers x s.trace).count i =
    (payers x s.trace).count i + (h.filterMap (loser? x)).count i + owned s i x

/-- What some events add to the account of a holder. -/
def posted (x : T) (i : ι) (events : List (Event ι T)) : ℤ :=
  (receivers x events).count i - (payers x events).count i

theorem posted_nil : posted x i ([] : List (Event ι T)) = 0 := rfl

theorem posted_append (xs ys : List (Event ι T)) :
    posted x i (xs ++ ys) = posted x i xs + posted x i ys := by
  simp only [posted, receivers, payers, List.filterMap_append, List.count_append]
  omega

theorem posted_singleton (e : Event ι T) : posted x i [e] =
    (if e.receiver? x = some i then 1 else 0) - (if e.payer? x = some i then 1 else 0) := by
  rw [posted, receivers, payers, List.filterMap_cons, List.filterMap_cons]
  cases hr : e.receiver? x <;> cases hp : e.payer? x <;> simp [List.count_singleton]

theorem posted_handedIn : posted x i (events (.handedIn j) ref) =
    if ref = some x ∧ i = j then 1 else 0 := by
  cases ref with
  | none => rfl
  | some y => exact (posted_singleton _).trans (by grind [Event.receiver?, Event.payer?])

theorem posted_handedOut : posted x i (events (.handedOut j) ref) =
    if ref = some x ∧ i = j then -1 else 0 := by
  cases ref with
  | none => rfl
  | some y => exact (posted_singleton _).trans (by grind [Event.receiver?, Event.payer?])

theorem posted_released : posted x i (events (.released j) ref) =
    if ref = some x ∧ i = j then -1 else 0 := by
  cases ref with
  | none => rfl
  | some y => exact (posted_singleton _).trans (by grind [Event.receiver?, Event.payer?])

theorem posted_moved : posted x i (events (.moved k j) ref) =
    (if ref = some x ∧ i = j then 1 else 0) - (if ref = some x ∧ i = k then 1 else 0) := by
  cases ref with
  | none => rfl
  | some y => exact (posted_singleton _).trans (by grind [Event.receiver?, Event.payer?])

/-! ### Statements -/

omit [DecidableEq T] in
theorem refOf_put (holder : Option (RefHolder T)) (new : List (Event ι T)) :
    (s.put j holder new).refOf i =
      if i = j then holder.bind fun holder ↦ holder.ref else s.refOf i := by
  rw [Holders.refOf, Holders.put]
  by_cases hi : i = j
  · subst hi
    simp
  · simp [hi, Holders.refOf]

omit [DecidableEq ι] [DecidableEq T] in
theorem refOf_of_eq {holder : Option (RefHolder T)} (hi : s.holders i = holder) :
    s.refOf i = holder.bind fun holder ↦ holder.ref := by
  rw [Holders.refOf, hi]

theorem attach_cases (ref : Option T) (holder : RefHolder T) :
    ref ≠ holder.ref ∧ holder.attach ref = (holder.ref, { ref := ref }) ∨
      ref = holder.ref ∧ holder.attach ref = (none, holder) := by
  rw [attach]
  split
  next h => exact .inl ⟨h, rfl⟩
  next h => exact .inr ⟨not_not.1 h, rfl⟩

/-- **What a statement does to the accounts.** -/
theorem posted_of_exec (hexec : exec s l = some s') (x : T) (i : ι) :
    ∃ new, s'.trace = s.trace ++ new ∧
      posted x i new + owned s i x = (loser? x ⟨s, l, s'⟩).toList.count i + owned s' i x := by
  cases l with
  | construct j =>
    obtain ⟨_, hguard, hput⟩ := Option.bind_eq_some_iff.1 hexec
    obtain rfl := Option.some.inj hput
    have hnone := refOf_of_eq ((Option.guard_eq_some' ()).1 hguard)
    refine ⟨_, rfl, ?_⟩
    simp only [loser?, owned, posted_nil, refOf_put, Option.bind_some]
    grind
  | constructFrom j ref =>
    obtain ⟨_, hguard, hput⟩ := Option.bind_eq_some_iff.1 hexec
    obtain rfl := Option.some.inj hput
    have hnone := refOf_of_eq ((Option.guard_eq_some' ()).1 hguard)
    refine ⟨_, rfl, ?_⟩
    simp only [loser?, owned, posted_handedIn, refOf_put, Option.bind_some]
    grind
  | moveConstruct j k =>
    obtain ⟨_, hguard, hmove⟩ := Option.bind_eq_some_iff.1 hexec
    obtain ⟨holder, hk, hput⟩ := Option.bind_eq_some_iff.1 hmove
    obtain rfl := Option.some.inj hput
    have hnone := refOf_of_eq ((Option.guard_eq_some' ()).1 hguard)
    have href := refOf_of_eq hk
    refine ⟨_, List.append_assoc _ _ _, ?_⟩
    simp only [loser?, owned, posted_append, posted_nil, posted_moved, refOf_put, Option.bind_some]
    grind
  | assign j ref =>
    obtain ⟨holder, hj, hput⟩ := Option.bind_eq_some_iff.1 hexec
    obtain rfl := Option.some.inj hput
    have href := refOf_of_eq hj
    refine ⟨_, rfl, ?_⟩
    simp only [loser?, owned, posted_append, posted_handedIn, posted_released, refOf_put,
      Option.bind_some]
    grind
  | attach j ref =>
    obtain ⟨holder, hj, hput⟩ := Option.bind_eq_some_iff.1 hexec
    have href := refOf_of_eq hj
    rcases attach_cases ref holder with ⟨hne, heq⟩ | ⟨hsame, heq⟩
    all_goals
      rw [heq] at hput
      obtain rfl := Option.some.inj hput
      refine ⟨_, rfl, ?_⟩
      simp only [loser?, owned, posted_append, posted_handedIn, posted_released, refOf_put,
        Option.bind_some]
      grind
  | detach j =>
    obtain ⟨holder, hj, hput⟩ := Option.bind_eq_some_iff.1 hexec
    obtain rfl := Option.some.inj hput
    have href := refOf_of_eq hj
    refine ⟨_, rfl, ?_⟩
    simp only [loser?, owned, posted_handedOut, refOf_put, Option.bind_some]
    grind
  | reset j =>
    obtain ⟨holder, hj, hput⟩ := Option.bind_eq_some_iff.1 hexec
    obtain rfl := Option.some.inj hput
    have href := refOf_of_eq hj
    refine ⟨_, rfl, ?_⟩
    simp only [loser?, owned, posted_released, refOf_put, Option.bind_some]
    grind
  | moveAssign j k =>
    obtain ⟨holder, hk, hmove⟩ := Option.bind_eq_some_iff.1 hexec
    obtain ⟨target, hj, hput⟩ := Option.bind_eq_some_iff.1 hmove
    have href := refOf_of_eq hk
    have htarget := refOf_of_eq hj
    simp only [refOf_put, Option.bind_some] at htarget
    rcases attach_cases holder.ref target with ⟨hne, heq⟩ | ⟨hsame, heq⟩
    all_goals
      rw [heq] at hput
      obtain rfl := Option.some.inj hput
      refine ⟨_, List.append_assoc _ _ _, ?_⟩
      simp only [loser?, owned, posted_append, posted_nil, posted_moved, posted_released, refOf_put,
        Option.bind_some]
      grind
  | destroy j =>
    obtain ⟨holder, hj, hput⟩ := Option.bind_eq_some_iff.1 hexec
    obtain rfl := Option.some.inj hput
    have href := refOf_of_eq hj
    refine ⟨_, rfl, ?_⟩
    simp only [loser?, owned, posted_released, refOf_put, Option.bind_none]
    grind

theorem accounts_of_run (hrun : (system ι T).Run h s) : Accounts h s := by
  induction hrun with
  | start hs =>
    obtain rfl : _ = _ := hs
    exact fun x i ↦ rfl
  | @move h s s' l hrun hstep ih =>
    intro x i
    obtain ⟨new, htrace, hposted⟩ := posted_of_exec hstep x i
    have hold := ih x i
    have hlost : (List.filterMap (loser? x) [⟨s, l, s'⟩]).count i =
        (loser? x ⟨s, l, s'⟩).toList.count i := by
      cases hloser : loser? x ⟨s, l, s'⟩ <;> simp [hloser]
    rw [posted] at hposted
    rw [htrace, receivers, payers, List.filterMap_append, List.filterMap_append,
      List.filterMap_append, List.count_append, List.count_append, List.count_append, hlost]
    simp only [receivers, payers] at hposted hold
    omega

/-! ### Balance -/

omit [DecidableEq ι] in
theorem length_receivers (x : T) (trace : List (Event ι T)) :
    (receivers x trace).length = handedIn x trace + moved x trace := by
  induction trace with
  | nil => rfl
  | cons e trace ih =>
    simp only [receivers, handedIn, moved, List.filterMap_cons, List.countP_cons] at ih ⊢
    cases e <;> grind [Event.receiver?]

omit [DecidableEq ι] in
theorem length_payers (x : T) (trace : List (Event ι T)) :
    (payers x trace).length = released x trace + handedOut x trace + moved x trace := by
  induction trace with
  | nil => rfl
  | cons e trace ih =>
    simp only [payers, handedOut, moved, released, List.filterMap_cons, List.countP_cons] at ih ⊢
    cases e <;> grind [Event.payer?]

/-- A holder that refers to an object has a count of it left. -/
theorem Accounts.lt (haccounts : Accounts h s) (hi : s.refOf i = some x) :
    (payers x s.trace).count i < (receivers x s.trace).count i := by
  have hone : owned s i x = 1 := if_pos hi
  have := haccounts x i
  omega

/-- Once all holders are gone, what has been received is what has been paid out, and what has been
lost. -/
theorem Accounts.handedIn_eq (haccounts : Accounts h s) (hgone : ∀ i, s.holders i = none) (x : T) :
    handedIn x s.trace =
      released x s.trace + handedOut x s.trace + (h.filterMap (loser? x)).length := by
  have hperm : (receivers x s.trace).Perm (payers x s.trace ++ h.filterMap (loser? x)) := by
    refine List.perm_iff_count.2 fun i ↦ ?_
    have hzero : owned s i x = 0 := if_neg (by simp [refOf_of_eq (hgone i)])
    rw [haccounts x i, hzero, List.count_append, Nat.add_zero]
  have hlength := hperm.length_eq
  rw [List.length_append, length_receivers, length_payers] at hlength
  omega

/-- **When the counts are in balance**: exactly if none is doubled. -/
theorem balances_iff (hrun : (system ι T).Run h s) (hgone : ∀ i, s.holders i = none) :
    Balances h s ↔ ∀ t ∈ h, ¬ Doubles t := by
  have hsettled := (accounts_of_run hrun).handedIn_eq hgone
  constructor
  · intro hbalances t ht hdoubles
    obtain ⟨x, hloser⟩ := doubles_iff.1 hdoubles
    obtain ⟨i, hi⟩ := Option.ne_none_iff_exists'.1 hloser
    have hmem : i ∈ h.filterMap (loser? x) := List.mem_filterMap.2 ⟨t, ht, hi⟩
    have hpos := List.length_pos_of_mem hmem
    have := hbalances.settled x
    have := hsettled x
    omega
  · intro hnone
    refine ⟨fun x ↦ ?_, fun t ht i x hi ↦ ?_⟩
    · have hnil : h.filterMap (loser? x) = [] := by
        refine List.filterMap_eq_nil_iff.2 fun t ht ↦ ?_
        by_contra hloser
        exact hnone t ht (doubles_iff.2 ⟨x, hloser⟩)
      rw [hsettled x, hnil]
      rfl
    · obtain ⟨h₁, -, hrun₁, hstep⟩ := hrun.exists_of_mem ht
      exact (accounts_of_run (hrun₁.move hstep)).lt hi

/-- A program over two holders and one object, which passes a test. -/
theorem exists_run_of_program (program : List (Statement Bool Unit))
    (test : List (Move (Holders Bool Unit) (Statement Bool Unit)) → Holders Bool Unit → Prop)
    [∀ h s, Decidable (test h s)]
    (htest : (LabelledSystem.follow exec {} program).any (fun r ↦ test r.1 r.2) = true) :
    ∃ h s, (system Bool Unit).Run h s ∧ test h s :=
  Run.exists_of_follow (S := system Bool Unit) (fun _ _ _ hexec ↦ hexec) rfl program test htest

/-- Two holders share an object: a count of it is assigned over another one, and one is moved to
the holder that is empty. -/
theorem sharedObject_balances : ∃ h s, (system Bool Unit).Run h s ∧ (∀ i, s.holders i = none) ∧
    handedIn () s.trace = 3 ∧ Balances h s := by
  obtain ⟨h, s, hrun, hgone, hthree, hnone⟩ := exists_run_of_program
    [.constructFrom false (some ()), .constructFrom true (some ()), .assign false (some ()),
      .reset false, .moveAssign false true, .detach false, .destroy true, .destroy false]
    (fun h s ↦ (∀ i, s.holders i = none) ∧ handedIn () s.trace = 3 ∧
      ∀ t ∈ h, loser? () t = none) (by decide)
  refine ⟨h, s, hrun, hgone, hthree, (balances_iff hrun hgone).2 fun t ht hdoubles ↦ ?_⟩
  obtain ⟨x, hloser⟩ := doubles_iff.1 hdoubles
  exact hloser (hnone t ht)

/-- One of two holders of an object is moved to the other: one of the two counts is never
released. -/
theorem movedObject_not_balances : ∃ h s, (system Bool Unit).Run h s ∧
    (∀ i, s.holders i = none) ∧ ¬ Balances h s := by
  obtain ⟨h, s, hrun, hgone, htwo, hone⟩ := exists_run_of_program
    [.constructFrom false (some ()), .constructFrom true (some ()), .moveAssign false true,
      .destroy true, .destroy false]
    (fun _ s ↦ (∀ i, s.holders i = none) ∧ handedIn () s.trace = 2 ∧
      released () s.trace + handedOut () s.trace = 1) (by decide)
  refine ⟨h, s, hrun, hgone, fun hbalances ↦ ?_⟩
  have hsettled := hbalances.settled ()
  rw [htwo, hone] at hsettled
  exact absurd hsettled (by decide)

end RefHolder

end Trusty

end Amanuensis
