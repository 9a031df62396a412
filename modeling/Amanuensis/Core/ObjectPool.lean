import Mathlib.Algebra.Group.Nat.Defs
import Mathlib.Data.List.Perm.Subperm
import Mathlib.Data.List.Nodup
import Mathlib.Data.Option.Basic
import Amanuensis.Foundation.Runs

/-!
# The object pool

`ObjectPool` keeps idle objects on a stack, and counts them and the objects that are borrowed in two
counters of 64 bits. Its methods change the stack and the counters under a lock; an object that has
to be made is made after the lock has been left.

The constructor puts objects on the stack without counting them. So the counter of the idle objects
is as many objects short as there were in the beginning, and the counters tell the truth exactly if
there were none, and no object fails to be made (`tellsTruth_iff`).
-/

open LabelledSystem

namespace Amanuensis

/-- A pointer that is not null. What is alive at one time, object or call, has an address of its
own. -/
abbrev Address := { a : UInt64 // a ≠ 0 }

/-- The pool, with its counters of idle and of borrowed objects. -/
structure ObjectPool where
  minPoolSize : UInt64
  maxPoolSize : UInt64
  /-- The stack of the idle objects. -/
  pool : List Address := []
  numBorrowed : UInt64 := 0
  numIdle : UInt64 := 0
  deriving DecidableEq

namespace ObjectPool

/-- Put an object on the stack. -/
def push (object : Address) (p : ObjectPool) : ObjectPool := { p with pool := object :: p.pool }

/-- The constructor, with the objects that it makes. -/
def construct (minPoolSize maxPoolSize : UInt64) (objects : List Address) : ObjectPool :=
  objects.foldl (fun p object ↦ p.push object)
    { minPoolSize := minPoolSize, maxPoolSize := maxPoolSize }

/-- What `acquire` does under the lock, with the object that it finds. -/
def acquire (p : ObjectPool) : Option Address × ObjectPool :=
  let p := { p with numBorrowed := p.numBorrowed + 1 }
  match p.pool with
  | object :: pool => (some object, { p with numIdle := p.numIdle - 1, pool := pool })
  | [] => (none, p)

/-- The deleter of a borrowed object, which returns it to the pool. -/
def release (object : Address) (p : ObjectPool) : ObjectPool :=
  let p := { p with numBorrowed := p.numBorrowed - 1 }
  if UInt64.ofNat p.pool.length < p.maxPoolSize then
    { p.push object with numIdle := p.numIdle + 1 }
  -- the object is deleted
  else p

/-! ### A pool in use -/

/-- A pool, with the objects that have been acquired and not returned, and with the calls of
`acquire` that have found no object and are making one. -/
structure InUse where
  pool : ObjectPool
  borrowed : List Address := []
  making : List Address := []
  deriving DecidableEq

/-- Everything that is alive. -/
def InUse.live (s : InUse) : List Address := s.pool.pool ++ s.borrowed ++ s.making

/-- What may happen next: the critical sections of the calls, and what is done between them. -/
inductive Label
  | acquire (call : Address)
  | make (call object : Address)
  /-- The constructor of the object throws an exception. -/
  | throws (call : Address)
  /-- The last pointer to an object is dropped. -/
  | release (object : Address)
  deriving DecidableEq

/-- What may happen next. The calls may be interleaved in any order. -/
def exec (s : InUse) : Label → Option InUse
  | .acquire call => do
    guard (call ∉ s.live)
    match s.pool.acquire with
    | (some object, pool) => return { s with pool := pool, borrowed := object :: s.borrowed }
    | (none, pool) => return { s with pool := pool, making := call :: s.making }
  | .make call object => do
    guard (call ∈ s.making ∧ object ∉ s.live)
    return { s with making := s.making.erase call, borrowed := object :: s.borrowed }
  | .throws call => do
    guard (call ∈ s.making)
    return { s with making := s.making.erase call }
  | .release object => do
    guard (object ∈ s.borrowed)
    return { s with pool := s.pool.release object, borrowed := s.borrowed.erase object }

/-- **A pool in use**, with its sizes, from its construction on. -/
def system (minPoolSize maxPoolSize : UInt64) : LabelledSystem InUse Label where
  init s := ∃ objects : List Address, objects.Nodup ∧ objects.length = minPoolSize.toNat ∧
    s = { pool := construct minPoolSize maxPoolSize objects }
  step s l s' := exec s l = some s'

/-! ### What is claimed, and when -/

variable {minPoolSize maxPoolSize : UInt64} {s s' : InUse} {l : Label} {call object : Address}
  {h : List (Move InUse Label)} {t : Move InUse Label}

/-- **The counters tell the truth** about a pool in use. -/
structure Truthful (s : InUse) : Prop where
  idle : s.pool.numIdle.toNat = s.pool.pool.length
  /-- A call that is making an object counts as if it had it. -/
  borrowed : s.pool.numBorrowed.toNat = s.borrowed.length + s.making.length
  bounded : s.pool.pool.length ≤ s.pool.maxPoolSize.toNat
  /-- No object is idle and borrowed, or borrowed twice. -/
  distinct : (s.pool.pool ++ s.borrowed).Nodup

/-- A counter is decremented at zero. -/
def Wraps (t : Move InUse Label) : Prop :=
  match t.label with
  | .acquire _ => t.source.pool.pool ≠ [] ∧ t.source.pool.numIdle = 0
  | .release _ => t.source.pool.numBorrowed = 0
  | _ => False

/-- **The counters tell the truth all the time** in a run that leads to a state. -/
structure TellsTruth (h : List (Move InUse Label)) (s : InUse) : Prop where
  final : Truthful s
  source : ∀ t ∈ h, Truthful t.source
  target : ∀ t ∈ h, Truthful t.target
  neverWraps : ∀ t ∈ h, ¬ Wraps t

/-- The label is that of an exception. -/
def Label.isThrows : Label → Bool
  | throws _ => true
  | _ => false

/-- An object fails to be made. -/
def Fails (t : Move InUse Label) : Prop := t.label.isThrows = true

instance : DecidablePred Fails := fun _ ↦ inferInstanceAs (Decidable (_ = true))

/-! ### What may happen -/

/-- **What an event does** to a pool in use. -/
inductive Does (s : InUse) : Label → InUse → Prop
  | found (call object : Address) (pool : List Address) (hpool : s.pool.pool = object :: pool) :
    Does s (.acquire call)
      { s with
        pool := { s.pool with
          pool := pool
          numBorrowed := s.pool.numBorrowed + 1
          numIdle := s.pool.numIdle - 1 }
        borrowed := object :: s.borrowed }
  | missed (call : Address) (hcall : call ∉ s.live) (hpool : s.pool.pool = []) :
    Does s (.acquire call)
      { s with
        pool := { s.pool with numBorrowed := s.pool.numBorrowed + 1 }
        making := call :: s.making }
  | made (call object : Address) (hcall : call ∈ s.making) (hobject : object ∉ s.live) :
    Does s (.make call object)
      { s with making := s.making.erase call, borrowed := object :: s.borrowed }
  | failed (call : Address) (hcall : call ∈ s.making) :
    Does s (.throws call) { s with making := s.making.erase call }
  | kept (object : Address) (hobject : object ∈ s.borrowed)
    (hroom : UInt64.ofNat s.pool.pool.length < s.pool.maxPoolSize) :
    Does s (.release object)
      { s with
        pool := { s.pool with
          pool := object :: s.pool.pool
          numBorrowed := s.pool.numBorrowed - 1
          numIdle := s.pool.numIdle + 1 }
        borrowed := s.borrowed.erase object }
  | deleted (object : Address) (hobject : object ∈ s.borrowed)
    (hfull : ¬ UInt64.ofNat s.pool.pool.length < s.pool.maxPoolSize) :
    Does s (.release object)
      { s with
        pool := { s.pool with numBorrowed := s.pool.numBorrowed - 1 }
        borrowed := s.borrowed.erase object }

theorem does_of_exec (hexec : exec s l = some s') : Does s l s' := by
  obtain ⟨pool, borrowed, making⟩ := s
  cases l with
  | acquire call =>
    obtain ⟨_, hguard, hacquire⟩ := Option.bind_eq_some_iff.1 hexec
    have hcall := (Option.guard_eq_some' ()).1 hguard
    obtain ⟨_, _, idle, _, _⟩ := pool
    cases idle with
    | nil =>
      obtain rfl := Option.some.inj hacquire
      exact .missed call hcall rfl
    | cons object idle =>
      obtain rfl := Option.some.inj hacquire
      exact .found call object idle rfl
  | make call object =>
    obtain ⟨_, hguard, hmake⟩ := Option.bind_eq_some_iff.1 hexec
    obtain ⟨hcall, hobject⟩ := (Option.guard_eq_some' ()).1 hguard
    obtain rfl := Option.some.inj hmake
    exact .made call object hcall hobject
  | throws call =>
    obtain ⟨_, hguard, hthrows⟩ := Option.bind_eq_some_iff.1 hexec
    have hcall := (Option.guard_eq_some' ()).1 hguard
    obtain rfl := Option.some.inj hthrows
    exact .failed call hcall
  | release object =>
    obtain ⟨_, hguard, hrelease⟩ := Option.bind_eq_some_iff.1 hexec
    have hobject := (Option.guard_eq_some' ()).1 hguard
    obtain rfl := Option.some.inj hrelease
    rw [release]
    split_ifs with hroom
    · exact .kept object hobject hroom
    · exact .deleted object hobject hroom

/-! ### Addresses -/

/-- There are fewer addresses than a counter of 64 bits can count. -/
theorem length_lt_of_nodup {addresses : List Address} (hnodup : addresses.Nodup) :
    addresses.length < 2 ^ 64 := by
  have hinj : Function.Injective fun a : Address ↦ a.1.toNat := fun a b heq ↦
    Subtype.ext (UInt64.toNat_inj.1 heq)
  have hsubset : addresses.map (fun a ↦ a.1.toNat) ⊆ List.range' 1 (2 ^ 64 - 1) := by
    intro n hn
    obtain ⟨a, -, rfl⟩ := List.mem_map.1 hn
    have hpos : a.1.toNat ≠ 0 := fun hzero ↦ a.2 (UInt64.toNat_inj.1 hzero)
    have hlt := a.1.toNat_lt
    rw [List.mem_range'_1]
    omega
  have hle := ((hnodup.map hinj).subperm hsubset).length_le
  rw [List.length_map, List.length_range'] at hle
  omega

/-! ### The counters -/

/-- **The invariant**: the objects that the constructor made are missing from the counter of the
idle objects. -/
structure Counted (minPoolSize : UInt64) (h : List (Move InUse Label)) (s : InUse) : Prop where
  live : s.live.Nodup
  bounded : s.pool.pool.length ≤ s.pool.maxPoolSize.toNat
  idle : s.pool.numIdle + minPoolSize = UInt64.ofNat s.pool.pool.length
  borrowed : (∀ t ∈ h, ¬ Fails t) →
    s.pool.numBorrowed = UInt64.ofNat (s.borrowed.length + s.making.length)

/-- What is alive has an address of its own. -/
theorem Does.live_nodup (hdoes : Does s l s') (hlive : s.live.Nodup) : s'.live.Nodup := by
  obtain ⟨⟨_, _, idle, _, _⟩, borrowed, making⟩ := s
  cases hdoes with
  | found call object pool hpool =>
    obtain rfl : idle = object :: pool := hpool
    have hperm : (pool ++ object :: borrowed ++ making).Perm
        (object :: pool ++ borrowed ++ making) :=
      List.Perm.append_right making List.perm_middle
    exact hperm.nodup_iff.2 hlive
  | missed call hcall hpool =>
    have hperm : (idle ++ borrowed ++ call :: making).Perm (call :: (idle ++ borrowed ++ making)) :=
      List.perm_middle
    exact hperm.nodup_iff.2 (List.nodup_cons.2 ⟨hcall, hlive⟩)
  | made call object hcall hobject =>
    have hsub : (idle ++ borrowed ++ making.erase call).Sublist (idle ++ borrowed ++ making) :=
      List.erase_sublist.append_left _
    have hperm : (idle ++ object :: borrowed ++ making.erase call).Perm
        (object :: (idle ++ borrowed ++ making.erase call)) :=
      List.Perm.append_right _ List.perm_middle
    exact hperm.nodup_iff.2
      (List.nodup_cons.2 ⟨fun hmem ↦ hobject (hsub.subset hmem), hlive.sublist hsub⟩)
  | failed call hcall =>
    exact hlive.sublist (List.erase_sublist.append_left _)
  | kept object hobject hroom =>
    have hborrowed : (idle ++ object :: borrowed.erase object).Perm (idle ++ borrowed) :=
      List.Perm.append_left idle (List.perm_cons_erase hobject).symm
    have hperm : (object :: idle ++ borrowed.erase object ++ making).Perm
        (idle ++ borrowed ++ making) :=
      List.Perm.append_right making (List.perm_middle.symm.trans hborrowed)
    exact hperm.nodup_iff.2 hlive
  | deleted object hobject hfull =>
    exact hlive.sublist ((List.erase_sublist.append_left idle).append_right making)

theorem foldl_push (objects : List Address) (p : ObjectPool) :
    objects.foldl (fun p object ↦ p.push object) p =
      { p with pool := objects.reverse ++ p.pool } := by
  induction objects generalizing p with
  | nil => rfl
  | cons object objects ih =>
    rw [List.foldl_cons, ih, List.reverse_cons, List.append_assoc]
    rfl

/-- The objects of the constructor are on the stack, and in neither counter. -/
theorem construct_eq (objects : List Address) :
    construct minPoolSize maxPoolSize objects =
      { minPoolSize := minPoolSize, maxPoolSize := maxPoolSize, pool := objects.reverse } := by
  rw [construct, foldl_push, List.append_nil]

theorem counted_of_construct (hle : minPoolSize ≤ maxPoolSize) {objects : List Address}
    (hnodup : objects.Nodup) (hlength : objects.length = minPoolSize.toNat) :
    Counted minPoolSize [] { pool := construct minPoolSize maxPoolSize objects } := by
  rw [construct_eq]
  refine ⟨?_, ?_, ?_, fun _ ↦ rfl⟩
  · simpa [InUse.live] using hnodup
  · show objects.reverse.length ≤ maxPoolSize.toNat
    rw [List.length_reverse, hlength]
    exact hle
  · show 0 + minPoolSize = UInt64.ofNat objects.reverse.length
    rw [List.length_reverse, hlength, UInt64.ofNat_toNat, UInt64.zero_add]

/-- One object less is borrowed. -/
theorem sub_one_eq_of_mem {borrowed : List Address} {n : ℕ} {count : UInt64}
    (hobject : object ∈ borrowed) (hcount : count = UInt64.ofNat (borrowed.length + n)) :
    count - 1 = UInt64.ofNat ((borrowed.erase object).length + n) := by
  have hpos := List.length_pos_of_mem hobject
  have hone : borrowed.length + n = (borrowed.erase object).length + n + 1 := by
    rw [List.length_erase_of_mem hobject]
    omega
  rw [hcount, hone, UInt64.ofNat_add]
  grind

/-- **What happens keeps the invariant.** -/
theorem Counted.does (hcounted : Counted minPoolSize h s) (hdoes : Does s l s') :
    Counted minPoolSize (h ++ [⟨s, l, s'⟩]) s' := by
  have hlive := hdoes.live_nodup hcounted.live
  have hborrowed (hnone : ∀ t ∈ h ++ [⟨s, l, s'⟩], ¬ Fails t) :=
    hcounted.borrowed fun t ht ↦ hnone t (List.mem_append_left _ ht)
  have hidle := hcounted.idle
  have hbounded := hcounted.bounded
  cases hdoes with
  | found call object pool hpool =>
    rw [hpool] at hidle hbounded
    refine ⟨hlive, Nat.le_of_succ_le hbounded, ?_, fun hnone ↦ ?_⟩
    · show s.pool.numIdle - 1 + minPoolSize = UInt64.ofNat pool.length
      rw [List.length_cons, UInt64.ofNat_add] at hidle
      grind
    · show s.pool.numBorrowed + 1 = UInt64.ofNat (s.borrowed.length + 1 + s.making.length)
      rw [hborrowed hnone, Nat.add_right_comm]
      exact (UInt64.ofNat_add _ 1).symm
  | missed call hcall hpool =>
    refine ⟨hlive, hbounded, hidle, fun hnone ↦ ?_⟩
    show s.pool.numBorrowed + 1 = UInt64.ofNat (s.borrowed.length + (s.making.length + 1))
    rw [hborrowed hnone, ← Nat.add_assoc]
    exact (UInt64.ofNat_add _ 1).symm
  | made call object hcall hobject =>
    refine ⟨hlive, hbounded, hidle, fun hnone ↦ ?_⟩
    have hpos := List.length_pos_of_mem hcall
    show s.pool.numBorrowed =
      UInt64.ofNat (s.borrowed.length + 1 + (s.making.erase call).length)
    rw [hborrowed hnone, List.length_erase_of_mem hcall]
    congr 1
    omega
  | failed call hcall =>
    refine ⟨hlive, hbounded, hidle, fun hnone ↦ ?_⟩
    exact absurd rfl (hnone _ List.mem_concat_self)
  | kept object hobject hroom =>
    have hlt := length_lt_of_nodup (List.nodup_append.1 (List.nodup_append.1 hcounted.live).1).1
    refine ⟨hlive, ?_, ?_, fun hnone ↦ ?_⟩
    · have hroom' := UInt64.lt_iff_toNat_lt.1 hroom
      rwa [UInt64.toNat_ofNat', Nat.mod_eq_of_lt hlt] at hroom'
    · show s.pool.numIdle + 1 + minPoolSize = UInt64.ofNat (s.pool.pool.length + 1)
      rw [UInt64.ofNat_add, ← hidle]
      grind
    · exact sub_one_eq_of_mem hobject (hborrowed hnone)
  | deleted object hobject hfull =>
    exact ⟨hlive, hbounded, hidle, fun hnone ↦ sub_one_eq_of_mem hobject (hborrowed hnone)⟩

theorem counted_of_run (hle : minPoolSize ≤ maxPoolSize)
    (hrun : (system minPoolSize maxPoolSize).Run h s) : Counted minPoolSize h s := by
  induction hrun with
  | start hs =>
    obtain ⟨objects, hnodup, hlength, rfl⟩ := hs
    exact counted_of_construct hle hnodup hlength
  | move hrun hstep ih => exact ih.does (does_of_exec hstep)

/-! ### The truth -/

/-- Without an object from the constructor, the counters tell the truth. -/
theorem Counted.truthful (hcounted : Counted 0 h s) (hnone : ∀ t ∈ h, ¬ Fails t) : Truthful s := by
  obtain ⟨hkept, hmaking, -⟩ := List.nodup_append.1 hcounted.live
  obtain ⟨hpool, -, -⟩ := List.nodup_append.1 hkept
  have hout : (s.borrowed ++ s.making).Nodup := by
    have hlive := hcounted.live
    rw [InUse.live, List.append_assoc] at hlive
    exact hlive.sublist (List.sublist_append_right _ _)
  have hlt := length_lt_of_nodup hout
  rw [List.length_append] at hlt
  have hidle := hcounted.idle
  rw [UInt64.add_zero] at hidle
  refine ⟨?_, ?_, hcounted.bounded, hkept⟩
  · rw [hidle, UInt64.toNat_ofNat', Nat.mod_eq_of_lt (length_lt_of_nodup hpool)]
  · rw [hcounted.borrowed hnone, UInt64.toNat_ofNat', Nat.mod_eq_of_lt hlt]

/-- Counters that tell the truth are not zero when they are decremented. -/
theorem Truthful.not_wraps (htruthful : Truthful s) (hdoes : Does s l s') : ¬ Wraps ⟨s, l, s'⟩ := by
  have hidle := htruthful.idle
  have hborrowed := htruthful.borrowed
  cases hdoes with
  | found call object pool hpool =>
    rintro ⟨-, hzero⟩
    replace hzero : s.pool.numIdle = 0 := hzero
    rw [hzero, hpool] at hidle
    exact absurd hidle (Nat.succ_ne_zero _).symm
  | missed call hcall hpool => exact fun hwraps ↦ hwraps.1 hpool
  | made | failed => exact not_false
  | kept object hobject | deleted object hobject =>
    intro hzero
    replace hzero : s.pool.numBorrowed = 0 := hzero
    have hpos := List.length_pos_of_mem hobject
    rw [hzero, UInt64.toNat_zero] at hborrowed
    omega

/-- A call that fails to make its object is gone, but is still counted. -/
theorem not_truthful_of_fails (htruthful : Truthful s) (hdoes : Does s l s')
    (hfails : Fails ⟨s, l, s'⟩) : ¬ Truthful s' := by
  intro htruthful'
  have hborrowed := htruthful.borrowed
  have hborrowed' := htruthful'.borrowed
  cases hdoes with
  | failed call hcall =>
    have hpos := List.length_pos_of_mem hcall
    rw [List.length_erase_of_mem hcall] at hborrowed'
    replace hborrowed' : s.pool.numBorrowed.toNat = s.borrowed.length + (s.making.length - 1) :=
      hborrowed'
    omega
  | found | missed | made | kept | deleted => exact absurd hfails Bool.false_ne_true

/-- **When the counters tell the truth all the time**: exactly if the pool is empty in the beginning
and no object fails to be made. -/
theorem tellsTruth_iff (hle : minPoolSize ≤ maxPoolSize)
    (hrun : (system minPoolSize maxPoolSize).Run h s) :
    TellsTruth h s ↔ minPoolSize = 0 ∧ ∀ t ∈ h, ¬ Fails t := by
  have hcounted := counted_of_run hle hrun
  constructor
  · intro htruth
    constructor
    · have hidle := hcounted.idle
      have hnum : s.pool.numIdle = UInt64.ofNat s.pool.pool.length := by
        rw [← htruth.final.idle, UInt64.ofNat_toNat]
      rw [hnum] at hidle
      grind
    · intro t ht hfails
      obtain ⟨-, -, -, hstep⟩ := hrun.exists_of_mem ht
      exact not_truthful_of_fails (htruth.source t ht) (does_of_exec hstep) hfails
        (htruth.target t ht)
  · rintro ⟨rfl, hnone⟩
    have hmoves (t : Move InUse Label) (ht : t ∈ h) : Truthful t.source ∧ Truthful t.target ∧
        Does t.source t.label t.target := by
      obtain ⟨h₁, hsub, hrun₁, hstep⟩ := hrun.exists_of_mem ht
      have hbefore : ∀ t ∈ h₁, ¬ Fails t := fun t ht ↦ hnone t (hsub ht)
      have hafter : ∀ u ∈ h₁ ++ [t], ¬ Fails u :=
        List.forall_mem_append.2 ⟨hbefore, by simpa using hnone t ht⟩
      exact ⟨(counted_of_run hle hrun₁).truthful hbefore,
        (counted_of_run hle (hrun₁.move hstep)).truthful hafter, does_of_exec hstep⟩
    refine ⟨hcounted.truthful hnone, fun t ht ↦ (hmoves t ht).1, fun t ht ↦ (hmoves t ht).2.1, ?_⟩
    exact fun t ht ↦ (hmoves t ht).1.not_wraps (hmoves t ht).2.2

/-- Two objects are made and returned to a pool with room for one, which is acquired again. -/
theorem emptyPool_tellsTruth : ∃ h s, (system 0 1).Run h s ∧ s.pool.numIdle = 0 ∧
    s.pool.numBorrowed = 1 ∧ TellsTruth h s := by
  obtain ⟨h, s, hrun, hidle, hborrowed, hnone⟩ := Run.exists_of_follow
    (S := system 0 1) (fun _ _ _ hexec ↦ hexec) ⟨[], List.nodup_nil, rfl, rfl⟩
    [.acquire ⟨1, by decide⟩, .acquire ⟨2, by decide⟩,
      .make ⟨1, by decide⟩ ⟨3, by decide⟩, .make ⟨2, by decide⟩ ⟨4, by decide⟩,
      .release ⟨3, by decide⟩, .release ⟨4, by decide⟩, .acquire ⟨1, by decide⟩]
    (fun h s ↦ s.pool.numIdle = 0 ∧ s.pool.numBorrowed = 1 ∧ ∀ t ∈ h, ¬ Fails t) (by decide)
  exact ⟨h, s, hrun, hidle, hborrowed, (tellsTruth_iff (by decide) hrun).2 ⟨rfl, hnone⟩⟩

/-- Acquiring the object that the constructor has made takes the counter of the idle objects below
zero. -/
theorem filledPool_not_tellsTruth : ∃ h s, (system 1 1).Run h s ∧
    s.pool.numIdle = 18446744073709551615 ∧ ¬ TellsTruth h s := by
  obtain ⟨h, s, hrun, hidle⟩ := Run.exists_of_follow
    (S := system 1 1) (fun _ _ _ hexec ↦ hexec)
    ⟨[⟨1, by decide⟩], List.nodup_singleton _, rfl, rfl⟩ [.acquire ⟨2, by decide⟩]
    (fun _ s ↦ s.pool.numIdle = 18446744073709551615 ∧ s.pool.pool = []) (by decide)
  refine ⟨h, s, hrun, hidle.1, fun htruth ↦ ?_⟩
  have hcount := htruth.final.idle
  rw [hidle.1, hidle.2] at hcount
  exact absurd hcount (by decide)

end ObjectPool

end Amanuensis
