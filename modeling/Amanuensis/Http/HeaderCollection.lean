import Amanuensis.Http.HeaderOrder

/-!
# The header collection as a whole

What any sequence of insertions under ASCII names leaves: the names in canonical spelling, each
where it was inserted first, and under each of them the values that were inserted under names equal
to it but for the case of their letters (`collectionLaws`).
-/

namespace Amanuensis

namespace QChar

variable {c : QChar}

theorem toLower_toUpper (c : QChar) : c.toUpper.toLower = c.toLower := by
  rw [← UInt16.toNat_inj, toNat_toLower c.toUpper, toNat_toUpper c, toNat_toLower c]
  split_ifs <;> omega

theorem toUpper_toLower (c : QChar) : c.toLower.toUpper = c.toUpper := by
  rw [← UInt16.toNat_inj, toNat_toUpper c.toLower, toNat_toLower c, toNat_toUpper c]
  split_ifs <;> omega

theorem toLower_of_not_isLetter (h : ¬ c.isLetter = true) : c.toLower = c := by
  rw [isLetter_iff] at h
  rw [← UInt16.toNat_inj, toNat_toLower, if_neg (fun hupper ↦ h (.inl hupper))]

end QChar

namespace Headers

/-! ### Names but for case -/

/-- A name in ASCII. -/
abbrev AsciiName := { name : QString // ∀ c ∈ name, c.toNat < 0x80 }

/-- Two names are equal but for the case of their letters. -/
def SameName (a b : QString) : Prop := a.map QChar.toLower = b.map QChar.toLower

instance : DecidableRel SameName := fun _ _ ↦ inferInstanceAs (Decidable (_ = _))

/-- Canonical spelling does not look at the case of letters. -/
theorem canonicalizeFrom_map_toLower (first : Bool) (name : QString) :
    canonicalizeFrom first (name.map QChar.toLower) = canonicalizeFrom first name := by
  induction name generalizing first with
  | nil => rfl
  | cons c name ih =>
    by_cases hletter : c.isLetter = true
    · rw [List.map_cons, canonicalizeFrom, canonicalizeFrom, if_pos hletter,
        if_pos (QChar.isLetter_toLower hletter), QChar.toUpper_toLower, QChar.toLower_toLower, ih,
        ih]
    · rw [List.map_cons, QChar.toLower_of_not_isLetter hletter, canonicalizeFrom,
        canonicalizeFrom, ih, ih, ih]

/-- It changes nothing but the case of letters. -/
theorem map_toLower_canonicalizeFrom (first : Bool) (name : QString) :
    (canonicalizeFrom first name).map QChar.toLower = name.map QChar.toLower := by
  induction name generalizing first with
  | nil => rfl
  | cons c name ih =>
    rw [canonicalizeFrom]
    split_ifs
    · rw [List.map_cons, List.map_cons, QChar.toLower_toUpper, ih]
    · rw [List.map_cons, List.map_cons, QChar.toLower_toLower, ih]
    · rw [List.map_cons, List.map_cons, ih]
    · rw [List.map_cons, List.map_cons, ih]

/-- **The same canonical spelling** is the same name but for case. -/
theorem canonicalize_eq_iff (a b : QString) : canonicalize a = canonicalize b ↔ SameName a b := by
  constructor
  · intro heq
    have hmap := congrArg (List.map QChar.toLower) heq
    rwa [canonicalize, canonicalize, map_toLower_canonicalizeFrom,
      map_toLower_canonicalizeFrom] at hmap
  · intro hsame
    rw [canonicalize, canonicalize, ← canonicalizeFrom_map_toLower true a, hsame,
      canonicalizeFrom_map_toLower]

/-! ### Sequences of insertions -/

/-- The collection after some insertions. -/
def collect (inserted : List (AsciiName × QString)) : Headers :=
  insertAll {} (inserted.map fun field ↦ (field.1.1, field.2))

/-- **The laws of the collection**, after some insertions. -/
structure CollectionLaws (inserted : List (AsciiName × QString)) : Prop where
  /-- Canonical spelling is idempotent. -/
  idempotent : ∀ name : AsciiName, canonicalize (canonicalize name) = canonicalize name
  /-- Two names are spelled alike exactly if they are equal but for case. -/
  spelling : ∀ a b : AsciiName, canonicalize a = canonicalize b ↔ SameName a b
  /-- The names are listed in the order of their first insertion. -/
  names : (collect inserted).names =
    (inserted.map fun field ↦ canonicalize field.1).eraseDups
  nodup : (collect inserted).names.Nodup
  /-- What is found is what has been inserted. -/
  found : ∀ name : AsciiName, ((collect inserted).findByName name).Perm
    ((inserted.filter fun field ↦ SameName field.1 name).map Prod.snd)
  size : (collect inserted).size = inserted.length
  /-- A loop over the names and their values visits each insertion once. -/
  visited : (collect inserted).pairs.Perm
    (inserted.map fun field ↦ (canonicalize field.1, field.2))

theorem collectionLaws (inserted : List (AsciiName × QString)) : CollectionLaws inserted where
  idempotent name := canonicalize_canonicalize name
  spelling a b := canonicalize_eq_iff a b
  names := by
    rw [collect, names_insertAll_eq_firstNames, firstNames, List.map_map]
    rfl
  nodup := (coherent_empty.insertAll _).nodup
  found name := by
    rw [collect, findByName_insertAll, List.filter_map, List.map_map]
    refine (List.reverse_perm _).trans (.of_eq ?_)
    refine congrArg (List.map Prod.snd) (List.filter_congr fun field _ ↦ ?_)
    exact decide_eq_decide.2 (canonicalize_eq_iff _ _)
  size := by
    rw [collect, size, values_insertAll]
    simp
  visited := by
    refine (coherent_empty.insertAll _).pairs_perm.trans ?_
    rw [values_insertAll, List.map_map]
    simp only [List.append_nil]
    exact List.reverse_perm _

end Headers

end Amanuensis
