import Amanuensis.Foundation.Scanner

/-!
# Reading a grammar off a scanner

A scanner written as a state machine recognizes, state by state, the pieces of a grammar. `Parses`
says so for one piece, in both directions at once: a run that gets past the piece has read a
rendering of it, and a rendering of it is read; `Reads` is the case of a piece after which the
machine goes on from some state. The combinators follow the grammar — a symbol in
front (`Parses.cons`), a word closed by a delimiter (`reads_word`), a block closed by a delimiter
(`reads_block`), one piece after another (`Parses.seq`), a list of lines up to a terminator
(`parses_lines`) — so that the proof about a machine has the shape of the grammar it implements.

A run gets *stuck* in a piece when it is rejected there, or when the input ends there.
-/

namespace Scanner

variable {σ α ω : Type*} (M : Scanner σ α ω) (inside : σ → Prop) (bad : ω)

/-- The run was rejected, or its input ended inside the region. -/
def Stuck (r : Scan σ α ω) : Prop :=
  r.verdict = some bad ∨ r.verdict = none ∧ inside r.state

variable {M inside bad}

theorem stuck_of_reject {s : σ} {a : α} (h : (M.step s a).1 = some bad) (as : List α) :
    Stuck inside bad (M.scan s (a :: as)) := by
  rcases hs : M.step s a with ⟨v, s'⟩
  rw [hs] at h
  dsimp only at h
  subst h
  rw [M.scan_cons_of_some hs]
  exact Or.inl rfl

theorem stuck_nil {s : σ} (h : inside s) : Stuck inside bad (M.scan s []) :=
  Or.inr ⟨rfl, h⟩

theorem Stuck.mono {inside' : σ → Prop} {r : Scan σ α ω} (hr : Stuck inside bad r)
    (h : ∀ s, inside s → inside' s) : Stuck inside' bad r :=
  hr.imp_right fun hr ↦ ⟨hr.1, h _ hr.2⟩

variable {ι κ : Type*}

/-- From `s` the machine reads the renderings of the well-formed `i`, and goes on as `result i`. -/
structure Parses (M : Scanner σ α ω) (inside : σ → Prop) (bad : ω) (s : σ) (ok : ι → Prop)
    (render : ι → List α) (result : ι → List α → Scan σ α ω) : Prop where
  /-- Whatever gets past the piece begins with a rendering. -/
  sound : ∀ as, Stuck inside bad (M.scan s as) ∨ ∃ i, ok i ∧ ∃ rest, as = render i ++ rest
  /-- A rendering is read. -/
  complete : ∀ i, ok i → ∀ rest, M.scan s (render i ++ rest) = result i rest

/-- From `s` the machine reads the renderings of the well-formed `i`, and reaches `next i`. -/
abbrev Reads (M : Scanner σ α ω) (inside : σ → Prop) (bad : ω) (s : σ) (ok : ι → Prop)
    (render : ι → List α) (next : ι → σ) : Prop :=
  Parses M inside bad s ok render fun i ↦ M.scan (next i)

/-- The empty piece. -/
theorem reads_nil (s : σ) :
    Reads M inside bad s (fun _ : Unit ↦ True) (fun _ ↦ []) fun _ ↦ s where
  sound as := Or.inr ⟨(), trivial, as, rfl⟩
  complete _ _ _ := rfl

/-- A last symbol, at which the run ends. -/
theorem parses_last {s : σ} {w : ω} {next : α → σ} (hin : inside s)
    (hstep : ∀ a, M.step s a = (some w, next a)) :
    Parses M inside bad s (fun _ : α ↦ True) (fun a ↦ [a]) fun a rest ↦ ⟨some w, next a, rest⟩ where
  sound as := by
    rcases as with - | ⟨a, as⟩
    · exact Or.inl (stuck_nil hin)
    · exact Or.inr ⟨a, trivial, as, rfl⟩
  complete a _ rest := by rw [List.singleton_append, M.scan_cons_of_some (hstep a)]

namespace Parses

variable {s : σ} {ok : ι → Prop} {render : ι → List α} {result : ι → List α → Scan σ α ω}

/-- A run that does not get stuck has read the piece. -/
theorem exists_of_not_stuck (h : Parses M inside bad s ok render result) {as : List α}
    (hns : ¬ Stuck inside bad (M.scan s as)) :
    ∃ i, ok i ∧ ∃ rest, as = render i ++ rest ∧ M.scan s as = result i rest := by
  obtain hs | ⟨i, hi, rest, rfl⟩ := h.sound as
  · exact absurd hs hns
  · exact ⟨i, hi, rest, rfl, h.complete i hi rest⟩

theorem mono {inside' : σ → Prop} (h : Parses M inside bad s ok render result)
    (hin : ∀ s, inside s → inside' s) : Parses M inside' bad s ok render result where
  sound as := (h.sound as).imp_left (·.mono hin)
  complete := h.complete

/-- A symbol in front. -/
theorem cons (s₀ : σ) (a : α) (h : Parses M inside bad s ok render result) (hin : inside s₀)
    (haccept : M.step s₀ a = (none, s)) (hreject : ∀ b, b ≠ a → (M.step s₀ b).1 = some bad) :
    Parses M inside bad s₀ ok (fun i ↦ a :: render i) result where
  sound as := by
    rcases as with - | ⟨b, as⟩
    · exact Or.inl (stuck_nil hin)
    · by_cases hb : b = a
      · subst hb
        rw [M.scan_cons_of_none haccept]
        exact (h.sound as).imp_right fun ⟨i, hi, rest, heq⟩ ↦ ⟨i, hi, rest, by rw [heq]; rfl⟩
      · exact Or.inl (stuck_of_reject (hreject b hb) as)
  complete i hi rest := by
    rw [List.cons_append, M.scan_cons_of_none haccept]
    exact h.complete i hi rest

/-- One piece after another. -/
theorem seq {next : ι → σ} {ok' : ι → κ → Prop} {render' : ι → κ → List α}
    {result' : ι → κ → List α → Scan σ α ω} (h : Reads M inside bad s ok render next)
    (h' : ∀ i, ok i → Parses M inside bad (next i) (ok' i) (render' i) (result' i)) :
    Parses M inside bad s (fun p : ι × κ ↦ ok p.1 ∧ ok' p.1 p.2)
      (fun p ↦ render p.1 ++ render' p.1 p.2) fun p ↦ result' p.1 p.2 where
  sound as := by
    obtain hs | ⟨i, hi, rest, rfl⟩ := h.sound as
    · exact Or.inl hs
    · rw [h.complete i hi rest]
      refine ((h' i hi).sound rest).imp_right fun ⟨j, hj, rest', heq⟩ ↦ ?_
      exact ⟨(i, j), ⟨hi, hj⟩, rest', by rw [heq, List.append_assoc]⟩
  complete p hp rest := by
    rw [List.append_assoc, h.complete p.1 hp.1, (h' p.1 hp.1).complete p.2 hp.2]

/-- Naming the parts of a piece. -/
theorem reindex {ok' : κ → Prop} {render' : κ → List α} {result' : κ → List α → Scan σ α ω}
    (f : ι → κ) (h : Parses M inside bad s ok render result) (hok : ∀ i, ok i → ok' (f i))
    (hsurj : ∀ k, ok' k → ∃ i, ok i ∧ f i = k) (hrender : ∀ i, render' (f i) = render i)
    (hresult : ∀ i, ok i → result' (f i) = result i) :
    Parses M inside bad s ok' render' result' where
  sound as := (h.sound as).imp_right fun ⟨i, hi, rest, heq⟩ ↦
    ⟨f i, hok i hi, rest, by rw [heq, hrender]⟩
  complete k hk rest := by
    obtain ⟨i, hi, rfl⟩ := hsurj k hk
    rw [hrender, hresult i hi]
    exact h.complete i hi rest

end Parses

/-- **A block closed by a delimiter**: `g` collects the symbols of a class. -/
theorem reads_block (g : List α → σ) (p : α → Bool) (d : α) (next : List α → σ)
    (hin : ∀ acc, inside (g acc))
    (hloop : ∀ acc a, p a = true → M.step (g acc) a = (none, g (acc ++ [a])))
    (hexit : ∀ acc, M.step (g acc) d = (none, next acc))
    (hreject : ∀ acc a, p a = false → a ≠ d → (M.step (g acc) a).1 = some bad)
    (acc : List α) :
    Reads M inside bad (g acc) (fun t ↦ ∀ a ∈ t, p a = true) (fun t ↦ t ++ [d])
      fun t ↦ next (acc ++ t) where
  sound as := by
    obtain ⟨-, h⟩ | ⟨t, a, r, rfl, ht, ha, h⟩ := M.scan_takeWhile hloop acc as
    · rw [h]
      exact Or.inl (Or.inr ⟨rfl, hin _⟩)
    · by_cases hd : a = d
      · subst hd
        exact Or.inr ⟨t, ht, r, by simp⟩
      · rw [h]
        exact Or.inl (stuck_of_reject (hreject _ a ha hd) r)
  complete t ht rest := by
    rw [List.append_assoc, M.scan_collect hloop t ht, List.singleton_append,
      M.scan_cons_of_none (hexit _)]

/-- **A word closed by a delimiter**: the first symbol has a class of its own, and `g` collects
the others. -/
theorem reads_word {s : σ} {g : List α → σ} {p q : α → Bool} {d : α} {next : List α → σ}
    (hin₀ : inside s) (hin : ∀ acc, inside (g acc))
    (hfirst : ∀ a, p a = true → M.step s a = (none, g [a]))
    (hreject₀ : ∀ a, p a = false → (M.step s a).1 = some bad)
    (hloop : ∀ acc a, q a = true → M.step (g acc) a = (none, g (acc ++ [a])))
    (hexit : ∀ acc, M.step (g acc) d = (none, next acc))
    (hreject : ∀ acc a, q a = false → a ≠ d → (M.step (g acc) a).1 = some bad) :
    Reads M inside bad s
      (fun t ↦ (∃ a ∈ t.head?, p a = true) ∧ ∀ a ∈ t.tail, q a = true) (fun t ↦ t ++ [d]) next where
  sound as := by
    rcases as with - | ⟨a, as⟩
    · exact Or.inl (stuck_nil hin₀)
    · by_cases ha : p a = true
      · rw [M.scan_cons_of_none (hfirst a ha)]
        refine ((reads_block g q d next hin hloop hexit hreject [a]).sound as).imp_right ?_
        rintro ⟨t, ht, rest, rfl⟩
        exact ⟨a :: t, ⟨⟨a, rfl, ha⟩, ht⟩, rest, rfl⟩
      · exact Or.inl (stuck_of_reject (hreject₀ a (by simpa using ha)) as)
  complete t ht rest := by
    obtain ⟨⟨a, ha, hp⟩, htail⟩ := ht
    obtain ⟨t, rfl⟩ : ∃ t', t = a :: t' := ⟨t.tail, (List.cons_head?_tail ha).symm⟩
    rw [List.cons_append, List.cons_append, M.scan_cons_of_none (hfirst a hp)]
    exact (reads_block g q d next hin hloop hexit hreject [a]).complete t htail rest

/-- **A counted block**: `g n` collects `n` more symbols. -/
theorem reads_count (g : ℕ → List α → σ) {bound : ℕ}
    (hin : ∀ n < bound, ∀ acc, inside (g (n + 1) acc))
    (hstep : ∀ n < bound, ∀ acc a, M.step (g (n + 1) acc) a = (none, g n (acc ++ [a])))
    {n : ℕ} (hn : n ≤ bound) (acc : List α) :
    Reads M inside bad (g n acc) (fun t ↦ t.length = n) (fun t ↦ t) fun t ↦ g 0 (acc ++ t) where
  sound as := by
    induction n generalizing acc as with
    | zero => exact Or.inr ⟨[], rfl, as, rfl⟩
    | succ n ih =>
      rcases as with - | ⟨a, as⟩
      · exact Or.inl (stuck_nil (hin n hn acc))
      · rw [M.scan_cons_of_none (hstep n hn acc a)]
        refine (ih (Nat.le_of_succ_le hn) _ as).imp_right ?_
        rintro ⟨t, rfl, rest, rfl⟩
        exact ⟨a :: t, rfl, rest, rfl⟩
  complete t ht rest := by
    show M.scan (g n acc) (t ++ rest) = M.scan (g 0 (acc ++ t)) rest
    induction n generalizing acc t with
    | zero =>
      obtain rfl := List.length_eq_zero_iff.1 ht
      rw [List.append_nil, List.nil_append]
    | succ n ih =>
      obtain ⟨a, t, rfl⟩ := List.exists_cons_of_length_eq_add_one ht
      rw [List.cons_append, M.scan_cons_of_none (hstep n hn acc a),
        ih (Nat.le_of_succ_le hn) _ t (by simpa using ht), List.append_assoc]
      rfl

/-- The lines of a list, each read in the state the ones before it lead to. -/
def LinesOk (okLine : κ → ι → Prop) (store : κ → ι → κ) : κ → List ι → Prop
  | _, [] => True
  | k, l :: ls => okLine k l ∧ LinesOk okLine store (store k l) ls

theorem linesOk_iff_forall {p : ι → Prop} {store : κ → ι → κ} {k : κ} {ls : List ι} :
    LinesOk (fun _ l ↦ p l) store k ls ↔ ∀ l ∈ ls, p l := by
  induction ls generalizing k with
  | nil => simp [LinesOk]
  | cons l ls ih => rw [LinesOk, ih, List.forall_mem_cons]

/-- **A list of lines up to an end.** At the start of a line the machine is in a state `g k`, where
`k` is what the lines so far have stored; it either reads a line, which is stored, or one of the
pieces that end the list. -/
theorem parses_lines {ν : Type*} (g : κ → σ) (okLine : κ → ι → Prop) (store : κ → ι → κ)
    (render : ι → List α) (okEnd : κ → ν → Prop) (renderEnd : ν → List α)
    (result : κ → ν → List α → Scan σ α ω)
    (hsound : ∀ k as, Stuck inside bad (M.scan (g k) as) ∨
      (∃ e, okEnd k e ∧ ∃ rest, as = renderEnd e ++ rest) ∨
      ∃ l, okLine k l ∧ ∃ rest, as = render l ++ rest)
    (hend : ∀ k e, okEnd k e → ∀ rest, M.scan (g k) (renderEnd e ++ rest) = result k e rest)
    (hline : ∀ k l, okLine k l → ∀ rest,
      M.scan (g k) (render l ++ rest) = M.scan (g (store k l)) rest)
    (hne : ∀ k l, okLine k l → render l ≠ []) (k : κ) :
    Parses M inside bad (g k)
      (fun p : List ι × ν ↦ LinesOk okLine store k p.1 ∧ okEnd (p.1.foldl store k) p.2)
      (fun p ↦ p.1.flatMap render ++ renderEnd p.2)
      fun p ↦ result (p.1.foldl store k) p.2 where
  sound as := by
    -- every line consumes something, so the input that is left gets shorter
    induction hn : as.length using Nat.strong_induction_on generalizing k as with
    | _ n ih =>
      obtain hs | ⟨e, he, rest, rfl⟩ | ⟨l, hl, rest, rfl⟩ := hsound k as
      · exact Or.inl hs
      · exact Or.inr ⟨([], e), ⟨trivial, he⟩, rest, rfl⟩
      · have hlt : rest.length < n := by
          have := List.length_pos_iff.2 (hne k l hl)
          simp only [List.length_append] at hn
          omega
        rw [hline k l hl]
        refine (ih rest.length hlt (store k l) rest rfl).imp_right ?_
        rintro ⟨⟨ls, e⟩, ⟨hls, he⟩, rest', rfl⟩
        exact ⟨(l :: ls, e), ⟨⟨hl, hls⟩, he⟩, rest', by simp⟩
  complete := by
    rintro ⟨ls, e⟩ ⟨hls, he⟩ rest
    induction ls generalizing k with
    | nil => exact hend k e he rest
    | cons l ls ih =>
      rw [List.flatMap_cons, List.append_assoc, List.append_assoc, hline k l hls.1,
        ← List.append_assoc, ih (store k l) hls.2 he, List.foldl_cons]

end Scanner
