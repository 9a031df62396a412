import Mathlib.Data.List.Basic
import Mathlib.Data.List.Infix
import Mathlib.Data.List.TakeWhile

/-!
# Lines

Texts over any symbols, in which a line is ended by a break of two different symbols, `a` and then
`b`. `splitLines` cuts a text at its breaks; lines in which `a` does not occur come back as they
were written (`splitLines_flatMap`).

A text may also be read symbol by symbol. `spot` is what such a reader has to remember to find the
end of the first line and the first empty line: it says whether the text holds a break
(`inFirstLine_spot`) and whether it holds an empty line after the first (`spot_eq_pastHead_iff`).
-/

namespace Lines

variable {α : Type*} [DecidableEq α] (a b : α)

/-- What stands between the breaks of a text. -/
def splitLines : List α → List (List α)
  | [] => [[]]
  | [c] => [[c]]
  | c :: d :: rest =>
    if c = a ∧ d = b then [] :: splitLines rest
    else (splitLines (d :: rest)).modifyHead (c :: ·)

/-- The lines before the first empty one. -/
def linesOfHead (text : List α) : List (List α) := (splitLines a b text).takeWhile (· ≠ [])

variable {a b}

/-- **A line and its break**: the line is the first one. -/
theorem splitLines_append {l : List α} (hl : a ∉ l) (rest : List α) :
    splitLines a b (l ++ a :: b :: rest) = l :: splitLines a b rest := by
  induction l with
  | nil => rw [List.nil_append, splitLines, if_pos ⟨rfl, rfl⟩]
  | cons c l ih =>
    obtain ⟨hc, hl⟩ : a ≠ c ∧ a ∉ l := by simpa using hl
    rcases l with - | ⟨d, l⟩
    · rw [List.singleton_append, splitLines, if_neg fun h ↦ hc h.1.symm]
      rw [List.nil_append] at ih
      rw [ih hl]
      rfl
    · rw [List.cons_append, List.cons_append, splitLines, if_neg fun h ↦ hc h.1.symm]
      rw [List.cons_append] at ih
      rw [ih hl]
      rfl

/-- **Written lines come back.** -/
theorem splitLines_flatMap {ls : List (List α)} (hls : ∀ l ∈ ls, a ∉ l) (rest : List α) :
    splitLines a b (ls.flatMap (· ++ [a, b]) ++ rest) = ls ++ splitLines a b rest := by
  induction ls with
  | nil => rfl
  | cons l ls ih =>
    obtain ⟨hl, hls⟩ := List.forall_mem_cons.1 hls
    rw [List.flatMap_cons, List.append_assoc, List.append_assoc, List.cons_append,
      List.cons_append, List.nil_append, splitLines_append hl, ih hls, List.cons_append]

/-- Written lines, closed by an empty one. -/
theorem splitLines_head {ls : List (List α)} (hls : ∀ l ∈ ls, a ∉ l) (rest : List α) :
    splitLines a b (ls.flatMap (· ++ [a, b]) ++ a :: b :: rest) =
      ls ++ [] :: splitLines a b rest := by
  rw [splitLines_flatMap hls, splitLines, if_pos ⟨rfl, rfl⟩]

/-- **The lines of a head**: written lines up to the empty one are found again. -/
theorem linesOfHead_eq {ls : List (List α)} (hls : ∀ l ∈ ls, a ∉ l) (hne : ∀ l ∈ ls, l ≠ [])
    (rest : List α) : linesOfHead a b (ls.flatMap (· ++ [a, b]) ++ a :: b :: rest) = ls := by
  rw [linesOfHead, splitLines_head hls, List.takeWhile_append_of_pos (by simpa using hne),
    List.takeWhile_cons_of_neg (by simp), List.append_nil]

/-! ### Reading for the end of the head -/

/-- Where a reader stands. -/
inductive Spot
  | firstLine
  /-- After an `a` in the first line. -/
  | firstBreak
  | lineStart
  | inLine
  /-- After an `a` in a further line. -/
  | lineBreak
  /-- After an `a` at the start of a further line. -/
  | emptyBreak
  /-- The first empty line is over. -/
  | pastHead
  deriving DecidableEq, Repr

namespace Spot

/-- The first line is not over. -/
def inFirstLine : Spot → Bool
  | firstLine | firstBreak => true
  | _ => false

variable (a b)

/-- A further symbol is read. -/
def next : Spot → α → Spot
  | firstLine, c => if c = a then firstBreak else firstLine
  | firstBreak, c => if c = b then lineStart else if c = a then firstBreak else firstLine
  | lineStart, c => if c = a then emptyBreak else inLine
  | inLine, c => if c = a then lineBreak else inLine
  | lineBreak, c => if c = b then lineStart else if c = a then lineBreak else inLine
  | emptyBreak, c => if c = b then pastHead else if c = a then lineBreak else inLine
  | pastHead, _ => pastHead

omit [DecidableEq α] in
/-- What a spot says of the text read so far. -/
def Describes : Spot → List α → Prop
  | firstLine, t => ¬ [a, b] <:+: t ∧ ¬ [a] <:+ t
  | firstBreak, t => ¬ [a, b] <:+: t ∧ [a] <:+ t
  | lineStart, t => [a, b] <:+ t ∧ ¬ [a, b, a, b] <:+: t
  | inLine, t => [a, b] <:+: t ∧ ¬ [a, b, a, b] <:+: t ∧ ¬ [a] <:+ t ∧ ¬ [a, b] <:+ t
  | lineBreak, t => [a, b] <:+: t ∧ ¬ [a, b, a, b] <:+: t ∧ [a] <:+ t ∧ ¬ [a, b, a] <:+ t
  | emptyBreak, t => [a, b, a] <:+ t ∧ ¬ [a, b, a, b] <:+: t
  | pastHead, t => [a, b, a, b] <:+: t

end Spot

omit [DecidableEq α] in
/-- A suffix that ends with the last symbol. -/
theorem concat_suffix_concat_iff {l t : List α} {x c : α} :
    l ++ [x] <:+ t ++ [c] ↔ x = c ∧ l <:+ t := by
  rw [List.suffix_concat_iff]
  constructor
  · rintro (hnil | ⟨u, hu, hsuffix⟩)
    · exact absurd hnil (by simp)
    · obtain ⟨rfl, hx⟩ := List.append_inj' hu rfl
      exact ⟨by simpa using hx, hsuffix⟩
  · rintro ⟨rfl, hsuffix⟩
    exact Or.inr ⟨l, rfl, hsuffix⟩

/-- **One symbol keeps the description.** Whether a break ends with the new symbol is settled by
that symbol and by the suffix in front of it. -/
theorem Spot.Describes.next (hab : a ≠ b) {s : Spot} {t : List α} (h : s.Describes a b t) (c : α) :
    (s.next a b c).Describes a b (t ++ [c]) := by
  have hone (x : α) : [x] <:+ t ++ [c] ↔ x = c :=
    (concat_suffix_concat_iff (l := [])).trans (and_iff_left (List.nil_suffix))
  have htwo (x y : α) : [x, y] <:+ t ++ [c] ↔ y = c ∧ [x] <:+ t :=
    concat_suffix_concat_iff (l := [x])
  have hthree (x y z : α) : [x, y, z] <:+ t ++ [c] ↔ z = c ∧ [x, y] <:+ t :=
    concat_suffix_concat_iff (l := [x, y])
  have hfour (x y z w : α) : [x, y, z, w] <:+ t ++ [c] ↔ w = c ∧ [x, y, z] <:+ t :=
    concat_suffix_concat_iff (l := [x, y, z])
  have hlast : [a] <:+ t → ¬ [a, b] <:+ t := fun ha hb ↦ by
    obtain ⟨u, rfl⟩ := ha
    exact hab (concat_suffix_concat_iff (l := [a]).1 hb).1.symm
  have hshort : [a, b, a] <:+ t → [a] <:+ t := (List.suffix_append [a, b] [a]).trans
  have hbreak : [a, b, a] <:+ t → [a, b] <:+: t := fun ha ↦
    (List.prefix_append [a, b] [a]).isInfix.trans ha.isInfix
  have hhead : [a, b, a, b] <:+: t → [a, b] <:+: t :=
    (List.prefix_append [a, b] [a, b]).isInfix.trans
  cases s with
  | firstLine | firstBreak | lineStart | inLine | lineBreak | emptyBreak =>
    simp only [Spot.next, Describes] at h ⊢
    split_ifs <;> simp only [List.infix_concat_iff, hone, htwo, hthree, hfour] <;>
      clear hone htwo hthree hfour <;> grind
  | pastHead =>
    exact List.infix_append_of_infix_left h

variable (a b)

/-- Where a reader stands after a text. -/
def spot (t : List α) : Spot := t.foldl (Spot.next a b) .firstLine

theorem spot_concat (t : List α) (c : α) : spot a b (t ++ [c]) = (spot a b t).next a b c := by
  rw [spot, List.foldl_append]
  rfl

variable {a b}

theorem describes_spot (hab : a ≠ b) (t : List α) : (spot a b t).Describes a b t := by
  induction t using List.reverseRecOn with
  | nil => exact ⟨by simp, by simp⟩
  | append_singleton t c ih =>
    rw [spot_concat]
    exact ih.next hab c

/-- **The first line** lasts as long as there is no break. -/
theorem inFirstLine_spot (hab : a ≠ b) (t : List α) :
    (spot a b t).inFirstLine = true ↔ ¬ [a, b] <:+: t := by
  have h := describes_spot hab t
  have hthree : [a, b] <:+: [a, b, a] := ⟨[], [a], rfl⟩
  have hfour : [a, b] <:+: [a, b, a, b] := ⟨[], [a, b], rfl⟩
  rcases hs : spot a b t <;> rw [hs] at h <;> simp only [Spot.Describes] at h <;>
    simp only [Spot.inFirstLine, true_iff, Bool.false_eq_true, false_iff, not_not]
  case firstLine | firstBreak | inLine | lineBreak => exact h.1
  case lineStart => exact h.1.isInfix
  case emptyBreak => exact hthree.trans h.1.isInfix
  case pastHead => exact hfour.trans h

/-- **The head** lasts as long as there is no empty line after the first line. -/
theorem spot_eq_pastHead_iff (hab : a ≠ b) (t : List α) :
    spot a b t = .pastHead ↔ [a, b, a, b] <:+: t := by
  have h := describes_spot hab t
  have hfour : [a, b] <:+: [a, b, a, b] := ⟨[], [a, b], rfl⟩
  rcases hs : spot a b t <;> rw [hs] at h <;> simp only [Spot.Describes] at h <;>
    simp only [reduceCtorEq, false_iff, true_iff]
  case firstLine | firstBreak => exact fun hin ↦ h.1 (hfour.trans hin)
  case lineStart | emptyBreak => exact h.2
  case inLine | lineBreak => exact h.2.1
  case pastHead => exact h

omit [DecidableEq α] in
/-- A symbol completes a pattern: with it, and not before it, the text holds the pattern. -/
def Completes (pattern t : List α) (c : α) : Prop :=
  ¬ pattern <:+: t ∧ pattern <:+: t ++ [c]

end Lines
