import Mathlib.Data.List.Nodup
import Amanuensis.Http.Head

/-!
# Laws of the header collection

Canonical spelling, and what a sequence of insertions leaves in a collection. Header names and
values come from bytes of a certain class; `Latin1Of` says so of a string, and canonical spelling
stays inside the class of token characters.
-/

namespace Amanuensis

/-! ### Strings spelled with a class of bytes -/

namespace QString

/-- The string is the Latin-1 reading of bytes of the class. -/
def Latin1Of (p : UInt8 → Bool) (s : QString) : Prop :=
  ∀ c ∈ s, ∃ b : UInt8, p b = true ∧ c = b.toUInt16

variable {p : UInt8 → Bool}

theorem latin1Of_fromLatin1 {bytes : QByteArray} (h : ∀ b ∈ bytes, p b = true) :
    Latin1Of p (fromLatin1 bytes) := by
  intro c hc
  obtain ⟨b, hb, rfl⟩ := List.mem_map.1 hc
  exact ⟨b, h b hb, rfl⟩

theorem latin1Of_nil : Latin1Of p [] := fun _ hc ↦ absurd hc (List.not_mem_nil)

theorem Latin1Of.append {s t : QString} (hs : Latin1Of p s) (ht : Latin1Of p t) :
    Latin1Of p (s ++ t) := fun c hc ↦ (List.mem_append.1 hc).elim (hs c) (ht c)

/-- The bytes come back. -/
theorem Latin1Of.forall_mem_toLatin1 {s : QString} (hs : Latin1Of p s) :
    ∀ b ∈ s.toLatin1, p b = true := by
  intro b hb
  obtain ⟨c, hc, rfl⟩ := List.mem_map.1 hb
  obtain ⟨b, hb, rfl⟩ := hs c hc
  rwa [QChar.toLatin1_toUInt16]

/-- The string comes back. -/
theorem Latin1Of.fromLatin1_toLatin1 {s : QString} (hs : Latin1Of p s) :
    fromLatin1 s.toLatin1 = s := by
  rw [fromLatin1, toLatin1, List.map_map]
  conv_rhs => rw [← List.map_id s]
  refine List.map_congr_left fun c hc ↦ ?_
  obtain ⟨b, -, rfl⟩ := hs c hc
  exact congrArg UInt8.toUInt16 (QChar.toLatin1_toUInt16 b)

/-- What holds of every character of the separator and the parts holds of what they are joined
to. -/
theorem forall_mem_intercalate {P : QChar → Prop} {sep : QString} {l : List QString}
    (hsep : ∀ c ∈ sep, P c) (hl : ∀ s ∈ l, ∀ c ∈ s, P c) : ∀ c ∈ sep.intercalate l, P c := by
  induction l with
  | nil => exact fun c hc ↦ absurd hc List.not_mem_nil
  | cons s l ih =>
    obtain ⟨hs, hl⟩ := List.forall_mem_cons.1 hl
    rcases l with - | ⟨t, l⟩
    · simpa using hs
    · rw [List.intercalate_cons_cons, List.forall_mem_append, List.forall_mem_append]
      exact ⟨⟨hs, hsep⟩, ih hl⟩

theorem Latin1Of.intercalate {sep : QString} {l : List QString} (hsep : Latin1Of p sep)
    (hl : ∀ s ∈ l, Latin1Of p s) : Latin1Of p (sep.intercalate l) :=
  forall_mem_intercalate hsep hl

end QString

/-! ### Canonical spelling -/

namespace QChar

theorem isLetter_iff {c : QChar} :
    c.isLetter = true ↔ (65 ≤ c.toNat ∧ c.toNat ≤ 90) ∨ (97 ≤ c.toNat ∧ c.toNat ≤ 122) := by
  simp only [isLetter, Bool.decide_or, Bool.decide_and, Bool.or_eq_true, Bool.and_eq_true,
    decide_eq_true_eq, UInt16.le_iff_toNat_le]
  rfl

theorem toNat_toUpper (c : QChar) :
    c.toUpper.toNat = if 97 ≤ c.toNat ∧ c.toNat ≤ 122 then c.toNat - 32 else c.toNat := by
  have h : (ofChar 'a' ≤ c ∧ c ≤ ofChar 'z') ↔ 97 ≤ c.toNat ∧ c.toNat ≤ 122 := by
    simp only [UInt16.le_iff_toNat_le]
    rfl
  rw [toUpper]
  split_ifs with h₁ h₂ h₂
  · exact UInt16.toNat_sub_of_le _ _ (UInt16.le_iff_toNat_le.2 (le_trans (by decide) h₂.1))
  · exact absurd (h.1 h₁) h₂
  · exact absurd (h.2 h₂) h₁
  · rfl

theorem toNat_toLower (c : QChar) :
    c.toLower.toNat = if 65 ≤ c.toNat ∧ c.toNat ≤ 90 then c.toNat + 32 else c.toNat := by
  have h : (ofChar 'A' ≤ c ∧ c ≤ ofChar 'Z') ↔ 65 ≤ c.toNat ∧ c.toNat ≤ 90 := by
    simp only [UInt16.le_iff_toNat_le]
    rfl
  rw [toLower]
  split_ifs with h₁ h₂ h₂
  · have h32 : (32 : UInt16).toNat = 32 := rfl
    rw [UInt16.toNat_add, h32]
    omega
  · exact absurd (h.1 h₁) h₂
  · exact absurd (h.2 h₂) h₁
  · rfl

theorem isLetter_toUpper {c : QChar} (h : c.isLetter = true) : c.toUpper.isLetter = true := by
  rw [isLetter_iff] at *
  rw [toNat_toUpper]
  split_ifs <;> omega

theorem isLetter_toLower {c : QChar} (h : c.isLetter = true) : c.toLower.isLetter = true := by
  rw [isLetter_iff] at *
  rw [toNat_toLower]
  split_ifs <;> omega

theorem toUpper_toUpper (c : QChar) : c.toUpper.toUpper = c.toUpper := by
  rw [← UInt16.toNat_inj, toNat_toUpper c.toUpper, toNat_toUpper c]
  split_ifs <;> omega

theorem toLower_toLower (c : QChar) : c.toLower.toLower = c.toLower := by
  rw [← UInt16.toNat_inj, toNat_toLower c.toLower, toNat_toLower c]
  split_ifs <;> omega

/-- Changing the case of a token character gives a token character. -/
theorem exists_tokenChar_toUpper {b : UInt8} (h : isTokenChar b = true) :
    ∃ b' : UInt8, isTokenChar b' = true ∧ toUpper b.toUInt16 = b'.toUInt16 := by
  have hall : ∀ n < 256, isTokenChar (UInt8.ofNat n) = true →
      isTokenChar (toUpper (UInt8.ofNat n).toUInt16).toLatin1 = true ∧
        toUpper (UInt8.ofNat n).toUInt16 =
          (toUpper (UInt8.ofNat n).toUInt16).toLatin1.toUInt16 := by decide +kernel
  have hb := hall b.toNat b.toNat_lt
  rw [UInt8.ofNat_toNat] at hb
  exact ⟨_, hb h⟩

theorem exists_tokenChar_toLower {b : UInt8} (h : isTokenChar b = true) :
    ∃ b' : UInt8, isTokenChar b' = true ∧ toLower b.toUInt16 = b'.toUInt16 := by
  have hall : ∀ n < 256, isTokenChar (UInt8.ofNat n) = true →
      isTokenChar (toLower (UInt8.ofNat n).toUInt16).toLatin1 = true ∧
        toLower (UInt8.ofNat n).toUInt16 =
          (toLower (UInt8.ofNat n).toUInt16).toLatin1.toUInt16 := by decide +kernel
  have hb := hall b.toNat b.toNat_lt
  rw [UInt8.ofNat_toNat] at hb
  exact ⟨_, hb h⟩

end QChar

namespace Headers

theorem canonicalizeFrom_canonicalizeFrom (first : Bool) (name : QString) :
    canonicalizeFrom first (canonicalizeFrom first name) = canonicalizeFrom first name := by
  have hdash : (QChar.ofChar '-').isLetter = false := by decide
  induction name generalizing first with
  | nil => rfl
  | cons c name ih =>
    by_cases hletter : c.isLetter = true
    · cases first with
      | true =>
        rw [canonicalizeFrom, if_pos hletter, if_pos rfl, canonicalizeFrom,
          if_pos (QChar.isLetter_toUpper hletter), if_pos rfl, QChar.toUpper_toUpper, ih]
      | false =>
        rw [canonicalizeFrom, if_pos hletter, if_neg (by simp), canonicalizeFrom,
          if_pos (QChar.isLetter_toLower hletter), if_neg (by simp), QChar.toLower_toLower, ih]
    · by_cases hc : c = QChar.ofChar '-'
      · subst hc
        rw [canonicalizeFrom, if_neg hletter, if_pos rfl, canonicalizeFrom, if_neg hletter,
          if_pos rfl, ih]
      · rw [canonicalizeFrom, if_neg hletter, if_neg hc, canonicalizeFrom, if_neg hletter,
          if_neg hc, ih]

/-- **Canonical spelling is idempotent.** -/
@[simp] theorem canonicalize_canonicalize (name : QString) :
    canonicalize (canonicalize name) = canonicalize name :=
  canonicalizeFrom_canonicalizeFrom true name

theorem latin1Of_canonicalizeFrom {first : Bool} {name : QString}
    (h : QString.Latin1Of isTokenChar name) :
    QString.Latin1Of isTokenChar (canonicalizeFrom first name) := by
  induction name generalizing first with
  | nil => exact QString.latin1Of_nil
  | cons c name ih =>
    obtain ⟨⟨b, hb, rfl⟩, hname⟩ := List.forall_mem_cons.1 h
    have hcons {c : QChar} {s : QString} (hc : ∃ b, isTokenChar b = true ∧ c = b.toUInt16)
        (hs : QString.Latin1Of isTokenChar s) : QString.Latin1Of isTokenChar (c :: s) :=
      List.forall_mem_cons.2 ⟨hc, hs⟩
    rw [canonicalizeFrom]
    split_ifs
    · exact hcons (QChar.exists_tokenChar_toUpper hb) (ih hname)
    · exact hcons (QChar.exists_tokenChar_toLower hb) (ih hname)
    · exact hcons ⟨b, hb, rfl⟩ (ih hname)
    · exact hcons ⟨b, hb, rfl⟩ (ih hname)

theorem latin1Of_canonicalize {name : QString} (h : QString.Latin1Of isTokenChar name) :
    QString.Latin1Of isTokenChar (canonicalize name) :=
  latin1Of_canonicalizeFrom h

/-! ### Insertions -/

/-- Fields inserted one after another. -/
def insertAll (h : Headers) (fields : List (QString × QString)) : Headers :=
  fields.foldl (fun h field ↦ h.insert field.1 field.2) h

/-- The names are those of the entries, each once and in canonical spelling. -/
structure Coherent (h : Headers) : Prop where
  nodup : h.names.Nodup
  mem_names : ∀ name, name ∈ h.names ↔ ∃ value, (name, value) ∈ h.values
  canonical : ∀ name ∈ h.names, canonicalize name = name

theorem coherent_empty : Coherent {} where
  nodup := List.nodup_nil
  mem_names := by simp [names]
  canonical := by simp [names]

/-- A name is appended unless it is there. -/
theorem Coherent.names_insert {h : Headers} (hh : h.Coherent) (name value : QString) :
    (h.insert name value).names =
      if canonicalize name ∈ h.names then h.names else h.names ++ [canonicalize name] := by
  have hany : (h.values.any fun entry ↦ decide (entry.1 = canonicalize name)) = true ↔
      canonicalize name ∈ h.names := by
    rw [hh.mem_names, List.any_eq_true]
    constructor
    · rintro ⟨⟨n, v⟩, hmem, heq⟩
      obtain rfl : n = canonicalize name := by simpa using heq
      exact ⟨v, hmem⟩
    · rintro ⟨v, hmem⟩
      exact ⟨_, hmem, by simp⟩
  exact if_congr hany rfl rfl

theorem Coherent.insert {h : Headers} (hh : h.Coherent) (name value : QString) :
    (h.insert name value).Coherent := by
  have hnames := hh.names_insert name value
  have hvalues : (h.insert name value).values = (canonicalize name, value) :: h.values := rfl
  constructor
  · rw [hnames]
    split_ifs with hmem
    · exact hh.nodup
    · exact hh.nodup.append (List.nodup_singleton _) (by simpa using hmem)
  · intro n
    rw [hnames, hvalues]
    split_ifs with hmem
    · rw [hh.mem_names]
      constructor
      · rintro ⟨v, hv⟩
        exact ⟨v, List.mem_cons_of_mem _ hv⟩
      · rintro ⟨v, hv⟩
        rcases List.mem_cons.1 hv with heq | hv
        · obtain ⟨rfl, rfl⟩ := Prod.mk.inj heq
          exact (hh.mem_names _).1 hmem
        · exact ⟨v, hv⟩
    · rw [List.mem_append, List.mem_singleton, hh.mem_names]
      constructor
      · rintro (⟨v, hv⟩ | rfl)
        · exact ⟨v, List.mem_cons_of_mem _ hv⟩
        · exact ⟨value, List.mem_cons_self⟩
      · rintro ⟨v, hv⟩
        rcases List.mem_cons.1 hv with heq | hv
        · exact Or.inr (Prod.mk.inj heq).1
        · exact Or.inl ⟨v, hv⟩
  · intro n hn
    rw [hnames] at hn
    split_ifs at hn with hmem
    · exact hh.canonical n hn
    · rcases List.mem_append.1 hn with hn | hn
      · exact hh.canonical n hn
      · rw [List.mem_singleton.1 hn, canonicalize_canonicalize]

theorem Coherent.insertAll {h : Headers} (hh : h.Coherent) (fields : List (QString × QString)) :
    (h.insertAll fields).Coherent := by
  induction fields generalizing h with
  | nil => exact hh
  | cons field fields ih => exact ih (hh.insert field.1 field.2)

theorem values_insertAll (h : Headers) (fields : List (QString × QString)) :
    (h.insertAll fields).values =
      (fields.map fun field ↦ (canonicalize field.1, field.2)).reverse ++ h.values := by
  induction fields generalizing h with
  | nil => rfl
  | cons field fields ih =>
    have hstep : h.insertAll (field :: fields) = (h.insert field.1 field.2).insertAll fields := rfl
    rw [hstep, ih, List.map_cons, List.reverse_cons, List.append_assoc]
    rfl

/-- New names are appended in the order of their fields. -/
theorem names_insertAll {h : Headers} (hh : h.Coherent) {fields : List (QString × QString)}
    (hnodup : (h.names ++ fields.map fun field ↦ canonicalize field.1).Nodup) :
    (h.insertAll fields).names = h.names ++ fields.map fun field ↦ canonicalize field.1 := by
  induction fields generalizing h with
  | nil => simp [insertAll]
  | cons field fields ih =>
    have hstep : h.insertAll (field :: fields) = (h.insert field.1 field.2).insertAll fields := rfl
    have hnew : canonicalize field.1 ∉ h.names := by
      intro hmem
      exact List.disjoint_of_nodup_append hnodup hmem (by simp)
    have hnames := hh.names_insert field.1 field.2
    rw [if_neg hnew] at hnames
    rw [hstep, ih (hh.insert _ _) (by rw [hnames]; simpa using hnodup), hnames, List.map_cons,
      List.append_assoc, List.singleton_append]

/-- The values of a name, most recent first. -/
theorem findByName_insertAll (fields : List (QString × QString)) (name : QString) :
    (insertAll {} fields).findByName name =
      ((fields.filter fun field ↦ canonicalize field.1 = canonicalize name).map
        Prod.snd).reverse := by
  rw [findByName, values_insertAll]
  simp only [List.append_nil, List.filter_reverse, List.map_reverse, List.filter_map,
    List.map_map]
  rfl

/-! ### Iterating -/

/-- A list, key by key. -/
theorem flatMap_filter_perm {κ α : Type*} [DecidableEq κ] {keys : List κ} (hnodup : keys.Nodup)
    (key : α → κ) {entries : List α} (hkeys : ∀ e ∈ entries, key e ∈ keys) :
    (keys.flatMap fun k ↦ entries.filter fun e ↦ key e = k).Perm entries := by
  induction entries with
  | nil => simp
  | cons e entries ih =>
    obtain ⟨he, hkeys⟩ := List.forall_mem_cons.1 hkeys
    obtain ⟨before, after, rfl⟩ := List.append_of_mem he
    -- The key of `e` occurs once, so that the other keys list the same entries as before.
    have hsame : ∀ ks : List κ, key e ∉ ks →
        (ks.flatMap fun k ↦ (e :: entries).filter fun e ↦ key e = k) =
          ks.flatMap fun k ↦ entries.filter fun e ↦ key e = k := by
      intro ks hks
      refine List.flatMap_congr fun k hk ↦ List.filter_cons_of_neg ?_
      simpa using fun heq : key e = k ↦ hks (heq ▸ hk)
    have hdisjoint := List.nodup_middle.1 hnodup
    have hnot : key e ∉ before ++ after := (List.nodup_cons.1 hdisjoint).1
    have hbefore : key e ∉ before := fun h ↦ hnot (List.mem_append_left _ h)
    have hafter : key e ∉ after := fun h ↦ hnot (List.mem_append_right _ h)
    have hperm := ih hkeys
    rw [List.flatMap_append, List.flatMap_cons] at hperm ⊢
    rw [hsame _ hbefore, hsame _ hafter, List.filter_cons_of_pos (by simp), List.cons_append]
    exact List.perm_middle.trans (hperm.cons e)

/-- The pairs that a loop over the names visits, with a loop over the values of each. -/
def pairs (h : Headers) : List (QString × QString) :=
  h.names.flatMap fun name ↦ (h.findByName name).map fun value ↦ (name, value)

/-- **Every entry is visited once.** -/
theorem Coherent.pairs_perm {h : Headers} (hh : h.Coherent) : h.pairs.Perm h.values := by
  have hpairs : h.pairs =
      h.names.flatMap fun name ↦ h.values.filter fun entry ↦ entry.1 = name := by
    refine List.flatMap_congr fun name hname ↦ ?_
    rw [findByName, hh.canonical name hname, List.map_map]
    conv_rhs => rw [← List.map_id (h.values.filter _)]
    refine List.map_congr_left fun entry hentry ↦ ?_
    have heq : entry.1 = name := by simpa using (List.mem_filter.1 hentry).2
    exact Prod.ext heq.symm rfl
  rw [hpairs]
  refine flatMap_filter_perm hh.nodup Prod.fst fun entry hentry ↦ ?_
  exact (hh.mem_names _).2 ⟨entry.2, hentry⟩

end Headers

end Amanuensis
