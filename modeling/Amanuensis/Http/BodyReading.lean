import Amanuensis.Http.Body
import Amanuensis.Http.HeadReading

/-!
# The parser reads bodies

The states after the head, read as the grammar of `Body`, and with them whole messages:
`parses_message` says that a run from a reset parser either is rejected, or asks for more, or has
read a well-formed `WireMessage` and ends with its outcome.
-/

namespace Amanuensis

namespace HttpMessageParser

open Scanner

/-- The parser has left the head. -/
def InBody (c : Cursor) : Prop := c.parser.state.inHead = false

/-- Reading a piece of the body. -/
abbrev ReadsBody {ι : Type*} (s : Cursor) (ok : ι → Prop) (render : ι → QByteArray)
    (next : ι → Cursor) : Prop :=
  Reads scanner InBody .invalid s ok render next

variable {r : UInt64} {b v : QByteArray} {m : HttpMessage}

/-! ### Counted bytes -/

theorem ofNat_succ_ne_zero {n : ℕ} (hn : n + 1 < 2 ^ 64) : UInt64.ofNat (n + 1) ≠ 0 := by
  intro h
  have := congrArg UInt64.toNat h
  rw [UInt64.toNat_ofNat_of_lt' hn] at this
  exact absurd this (by simp)

theorem ofNat_succ_sub_one (n : ℕ) : UInt64.ofNat (n + 1) - 1 = UInt64.ofNat n := by
  rw [UInt64.ofNat_add]
  simp

/-- The count a nonzero length is loaded as. -/
theorem exists_ofNat_succ {length : UInt64} (h : length ≠ 0) :
    ∃ n, n + 1 < 2 ^ 64 ∧ length.toNat = n + 1 ∧ length = UInt64.ofNat (n + 1) := by
  have hlt := length.toNat_lt
  have hne : length.toNat ≠ 0 := fun h0 ↦ h (UInt64.toNat_inj.1 h0)
  obtain ⟨n, hn⟩ := Nat.exists_eq_succ_of_ne_zero hne
  exact ⟨n, by omega, hn, by rw [← Nat.succ_eq_add_one, ← hn, UInt64.ofNat_toNat]⟩

/-- The bytes of a body of known length, up to the last. -/
theorem reads_entity {n : ℕ} (hn : n + 1 < 2 ^ 64) :
    ReadsBody (cursorAt .fixedLengthEntity (UInt64.ofNat (n + 1)) b v m) (fun t ↦ t.length = n)
      (fun t ↦ t)
      fun t ↦ cursorAt .fixedLengthEntity 1 b v { m with body := m.body ++ t } := by
  refine reads_count
    (fun k t ↦ cursorAt .fixedLengthEntity (UInt64.ofNat (k + 1)) b v { m with body := t })
    (fun _ _ _ ↦ rfl) (fun k hk t a ↦ ?_) le_rfl m.body
  have hne := ofNat_succ_ne_zero (n := k) (by omega)
  refine scanner_step_of_incomplete ?_
  simp only [consume, ofNat_succ_sub_one, hne, if_false]

/-- **A body of known length.** -/
theorem parses_fixed {length : UInt64} (hlength : length ≠ 0) :
    Parses scanner InBody .invalid (cursorAt .fixedLengthEntity length b v m)
      (fun t : QByteArray ↦ t.length = length.toNat) (fun t ↦ t) fun t rest ↦
        ⟨some .valid, cursorAt .fixedLengthEntity 0 b v { m with body := m.body ++ t }, rest⟩ := by
  obtain ⟨n, hn, htoNat, rfl⟩ := exists_ofNat_succ hlength
  have hlast (t : QByteArray) : Parses scanner InBody .invalid
      (cursorAt .fixedLengthEntity 1 b v { m with body := m.body ++ t }) (fun _ ↦ True)
      (fun a ↦ [a]) fun a rest ↦
        ⟨some .valid,
          cursorAt .fixedLengthEntity 0 b v { m with body := m.body ++ (t ++ [a]) }, rest⟩ := by
    refine parses_last rfl fun a ↦ ?_
    have hlast : consume (cursorAt .fixedLengthEntity 1 b v { m with body := m.body ++ t }) a =
        (.valid, cursorAt .fixedLengthEntity 0 b v { m with body := m.body ++ (t ++ [a]) }) := by
      simp [consume]
    rw [scanner_step_of_valid hlast]
    rfl
  refine ((reads_entity hn).seq fun t _ ↦ hlast t).reindex (fun p ↦ p.1 ++ [p.2]) ?_ ?_
    (fun _ ↦ rfl) fun _ _ ↦ rfl
  · rintro ⟨t, a⟩ ⟨ht, -⟩
    rw [htoNat, List.length_append, ht, List.length_singleton]
  · intro t ht
    have hne : t ≠ [] := by
      rintro rfl
      rw [htoNat] at ht
      exact absurd ht (by simp)
    refine ⟨(t.dropLast, t.getLast hne), ⟨?_, trivial⟩, List.dropLast_append_getLast hne⟩
    rw [List.length_dropLast, ht, htoNat, Nat.add_sub_cancel]

/-! ### Chunks -/

theorem sizeValue_append_singleton (ds : QByteArray) (d : UInt8) :
    sizeValue (ds ++ [d]) = sizeValue ds * 16 + UInt64.ofNat ((hexValue d).getD 0) := by
  simp [sizeValue]

/-- **`hex_value` does not throw** on what `is_hex` admits. -/
theorem exists_hexValue_of_isHex {d : UInt8} (h : isHex d = true) : ∃ n, hexValue d = some n := by
  unfold hexValue
  simp only [isHex, Bool.decide_or, Bool.or_eq_true, decide_eq_true_eq] at h
  split_ifs <;> simp_all

/-- The first digit of a size. -/
theorem scanner_step_chunkLengthStart {d : UInt8} (h : isHex d = true) :
    scanner.step (cursorAt .chunkLengthStart r b v m) d =
      (none, cursorAt .chunkLength (sizeValue [d]) b v m) := by
  obtain ⟨n, hn⟩ := exists_hexValue_of_isHex h
  refine scanner_step_of_incomplete ?_
  simp [consume, h, hn, sizeValue, Cursor.transit]

/-- A further digit of a size. -/
theorem scanner_step_chunkLength (ds : QByteArray) {d : UInt8} (h : isHex d = true) :
    scanner.step (cursorAt .chunkLength (sizeValue ds) b v m) d =
      (none, cursorAt .chunkLength (sizeValue (ds ++ [d])) b v m) := by
  obtain ⟨n, hn⟩ := exists_hexValue_of_isHex h
  have hne : d ≠ ascii '\r' := by rintro rfl; exact absurd h (by decide)
  refine scanner_step_of_incomplete ?_
  simp [consume, h, hn, hne, sizeValue_append_singleton]

/-- A size is read up to the byte after it. -/
theorem scan_size {size : QByteArray} (hsize : IsSize size) (rest : QByteArray) :
    scanner.scan (cursorAt .chunkLengthStart r b v m) (size ++ rest) =
      scanner.scan (cursorAt .chunkLength (sizeValue size) b v m) rest := by
  obtain ⟨d, ds, rfl⟩ := List.exists_cons_of_ne_nil hsize.1
  obtain ⟨hd, hds⟩ := List.forall_mem_cons.1 hsize.2
  rw [List.cons_append, scanner.scan_cons_of_none (scanner_step_chunkLengthStart hd)]
  exact scanner.scan_collect (g := fun t ↦ cursorAt .chunkLength (sizeValue t) b v m)
    (fun t _ ↦ scanner_step_chunkLength t) ds hds [d] rest

/-- What gets past the digits of a size. -/
theorem exists_size (as : QByteArray) :
    Stuck InBody .invalid (scanner.scan (cursorAt .chunkLengthStart r b v m) as) ∨
      ∃ size, IsSize size ∧
        ((∃ rest, as = size ++ ascii ';' :: rest) ∨ ∃ rest, as = size ++ ascii '\r' :: rest) := by
  rcases as with - | ⟨d, as⟩
  · exact Or.inl (stuck_nil rfl)
  by_cases hd : isHex d = true
  · rw [scanner.scan_cons_of_none (scanner_step_chunkLengthStart hd)]
    obtain ⟨-, h⟩ | ⟨t, a, rest, rfl, ht, ha, h⟩ := scanner.scan_takeWhile
      (g := fun t ↦ cursorAt .chunkLength (sizeValue t) b v m)
      (fun t _ ↦ scanner_step_chunkLength t) [d] as
    · exact Or.inl (Or.inr (by rw [h]; exact ⟨rfl, rfl⟩))
    · have hsize : IsSize (d :: t) := ⟨by simp, List.forall_mem_cons.2 ⟨hd, ht⟩⟩
      by_cases hsemi : a = ascii ';'
      · exact Or.inr ⟨d :: t, hsize, Or.inl ⟨rest, by rw [hsemi]; rfl⟩⟩
      by_cases hcr : a = ascii '\r'
      · exact Or.inr ⟨d :: t, hsize, Or.inr ⟨rest, by rw [hcr]; rfl⟩⟩
      · rw [h]
        refine Or.inl (stuck_of_reject ?_ rest)
        simp [scanner, consume, hsemi, hcr, ha]
  · refine Or.inl (stuck_of_reject ?_ as)
    simp [scanner, consume, hd]

/-- The data of a chunk, and the line break after it. -/
theorem reads_data {n : ℕ} (hn : n < 2 ^ 64) :
    ReadsBody (cursorAt .chunk (UInt64.ofNat n) b v m) (fun t ↦ t.length = n) (fun t ↦ t ++ crlf)
      fun t ↦ cursorAt .chunkLengthStart 0 b v { m with body := m.body ++ t } := by
  have hbytes : ReadsBody (cursorAt .chunk (UInt64.ofNat n) b v m) (fun t ↦ t.length = n)
      (fun t ↦ t) fun t ↦ cursorAt .chunk 0 b v { m with body := m.body ++ t } := by
    refine reads_count (fun k t ↦ cursorAt .chunk (UInt64.ofNat k) b v { m with body := t })
      (fun _ _ _ ↦ rfl) (fun k hk t a ↦ ?_) le_rfl m.body
    have hne := ofNat_succ_ne_zero (n := k) (by omega)
    refine scanner_step_of_incomplete ?_
    simp only [consume, ofNat_succ_sub_one, hne, if_false]
  have hbreak (m : HttpMessage) : ReadsBody (cursorAt .chunk 0 b v m) (fun _ : Unit ↦ True)
      (fun _ ↦ crlf) fun _ ↦ cursorAt .chunkLengthStart 0 b v m := by
    have hlf : ReadsBody (cursorAt .chunkTrailingNewline 0 b v m) (fun _ : Unit ↦ True)
        (fun _ ↦ [ascii '\n']) fun _ ↦ cursorAt .chunkLengthStart 0 b v m :=
      (reads_nil _).cons _ (ascii '\n') rfl rfl fun c hc ↦ by simp [scanner, consume, expect, hc]
    refine hlf.cons _ (ascii '\r') rfl ?_ fun c hc ↦ ?_
    · simp [scanner, consume, expect, Cursor.transit]
    · simp [scanner, consume, expect, hc]
  refine (hbytes.seq fun t _ ↦ hbreak _).reindex Prod.fst (fun p hp ↦ hp.1)
    (fun t ht ↦ ⟨(t, ()), ⟨ht, trivial⟩, rfl⟩) (fun _ ↦ rfl) fun _ _ ↦ rfl

/-- After the line break of a size line: a chunk, or the end. -/
theorem scan_sizeLine {size : QByteArray} (hsize : IsSize size) (rest : QByteArray) :
    scanner.scan (cursorAt .chunkLengthStart r b v m) (size ++ (crlf ++ rest)) =
      if sizeValue size = 0 then
        scanner.scan (cursorAt .chunkTrailingHeaderLineStart 0 b v m) rest
      else scanner.scan (cursorAt .chunk (sizeValue size) b v m) rest := by
  have hcr : scanner.step (cursorAt .chunkLength (sizeValue size) b v m) (ascii '\r') =
      (none, cursorAt .chunkLengthNewline (sizeValue size) b v m) := rfl
  rw [scan_size hsize, crlf, List.cons_append, List.cons_append, List.nil_append,
    scanner.scan_cons_of_none hcr]
  split_ifs with h
  · rw [h]
    rfl
  · refine scanner.scan_cons_of_none (scanner_step_of_incomplete ?_) rest
    simp [consume, UInt64.pos_iff_ne_zero, h, Cursor.transit]

/-- At the start of a size line. -/
abbrev atSizeLine (b v : QByteArray) (m : HttpMessage) (body : QByteArray) : Cursor :=
  cursorAt .chunkLengthStart 0 b v { m with body := body }

/-- Where a chunked body ends. -/
abbrev atChunksEnd (b v : QByteArray) (m : HttpMessage) (body : QByteArray) (e : ChunksEnd) :
    Cursor :=
  cursorAt e.state e.remaining b v { m with body := body }

theorem scan_chunk {k : Chunk} (hk : k.WellFormed) (body rest : QByteArray) :
    scanner.scan (atSizeLine b v m body) (k.render ++ rest) =
      scanner.scan (atSizeLine b v m (body ++ k.data)) rest := by
  have hdata := (reads_data (b := b) (v := v) (m := { m with body := body })
    (sizeValue k.size).toNat_lt).complete k.data hk.length rest
  rw [UInt64.ofNat_toNat] at hdata
  rw [Chunk.render, List.append_assoc, List.append_assoc, scan_sizeLine hk.size,
    if_neg hk.size_ne_zero]
  exact hdata

theorem scan_chunksEnd {e : ChunksEnd} (he : e.WellFormed) (body rest : QByteArray) :
    scanner.scan (atSizeLine b v m body) (e.render ++ rest) =
      ⟨some e.outcome, atChunksEnd b v m body e, rest⟩ := by
  cases e with
  | terminator size =>
    rw [ChunksEnd.render, List.append_assoc, List.append_assoc, scan_sizeLine he.1, if_pos he.2]
    rfl
  | extension size =>
    rw [ChunksEnd.render, List.append_assoc, scan_size he]
    rfl
  | trailer size first =>
    rw [ChunksEnd.render, List.append_assoc, List.append_assoc, scan_sizeLine he.1, if_pos he.2.1,
      List.singleton_append]
    have hgiveUp : consume (cursorAt .chunkTrailingHeaderLineStart 0 b v { m with body := body })
        first = (.fatal "Trailing headers not implemented",
          cursorAt .chunkTrailingHeaderLineStart 0 b v { m with body := body }) := by
      simp [consume, he.2.2]
    rw [scanner.scan_cons_of_some (scanner_step_of_other hgiveUp (by simp) (by simp))]
    rfl

/-- What gets past the start of a size line. -/
theorem exists_chunk_or_end (body as : QByteArray) :
    Stuck InBody .invalid (scanner.scan (atSizeLine b v m body) as) ∨
      (∃ e : ChunksEnd, e.WellFormed ∧ ∃ rest, as = e.render ++ rest) ∨
      ∃ k : Chunk, k.WellFormed ∧ ∃ rest, as = k.render ++ rest := by
  obtain hs | ⟨size, hsize, ⟨rest, rfl⟩ | ⟨rest, rfl⟩⟩ := exists_size
    (r := 0) (b := b) (v := v) (m := { m with body := body }) as
  · exact Or.inl hs
  · exact Or.inr (Or.inl ⟨.extension size, hsize, rest, by simp [ChunksEnd.render]⟩)
  have hcr : scanner.step (cursorAt .chunkLength (sizeValue size) b v { m with body := body })
      (ascii '\r') = (none, cursorAt .chunkLengthNewline (sizeValue size) b v
        { m with body := body }) := rfl
  rcases rest with - | ⟨a, rest⟩
  · rw [scan_size hsize, scanner.scan_cons_of_none hcr]
    exact Or.inl (stuck_nil rfl)
  by_cases ha : a = ascii '\n'
  · subst ha
    have hline := scan_sizeLine (r := 0) (b := b) (v := v) (m := { m with body := body }) hsize rest
    have happend : size ++ ascii '\r' :: ascii '\n' :: rest = size ++ (crlf ++ rest) := rfl
    rw [happend, hline]
    split_ifs with hzero
    · -- the last chunk
      rcases rest with - | ⟨c, rest⟩
      · exact Or.inl (stuck_nil rfl)
      by_cases hc : c = ascii '\r'
      · subst hc
        have hempty : scanner.step
            (cursorAt .chunkTrailingHeaderLineStart 0 b v { m with body := body }) (ascii '\r') =
            (none, cursorAt .chunkTerminatingNewline 0 b v { m with body := body }) := rfl
        rw [scanner.scan_cons_of_none hempty]
        rcases rest with - | ⟨d, rest⟩
        · exact Or.inl (stuck_nil rfl)
        by_cases hd : d = ascii '\n'
        · subst hd
          exact Or.inr (Or.inl ⟨.terminator size, ⟨hsize, hzero⟩, rest, by
            simp [ChunksEnd.render, crlf]⟩)
        · refine Or.inl (stuck_of_reject ?_ rest)
          simp [scanner, consume, hd]
      · exact Or.inr (Or.inl ⟨.trailer size c, ⟨hsize, hzero, hc⟩, rest, by
          simp [ChunksEnd.render, crlf]⟩)
    · -- a data chunk
      have hdata := (reads_data (b := b) (v := v) (m := { m with body := body })
        (sizeValue size).toNat_lt).sound rest
      rw [UInt64.ofNat_toNat] at hdata
      refine hdata.imp_right ?_
      rintro ⟨t, ht, rest', rfl⟩
      exact Or.inr ⟨⟨size, t⟩, ⟨hsize, hzero, ht⟩, rest', by simp [Chunk.render, crlf]⟩
  · rw [scan_size hsize, scanner.scan_cons_of_none hcr]
    refine Or.inl (stuck_of_reject ?_ rest)
    simp [scanner, consume, ha]

theorem foldl_data (ks : List Chunk) (body : QByteArray) :
    ks.foldl (fun body k ↦ body ++ k.data) body = body ++ ks.flatMap Chunk.data := by
  induction ks generalizing body with
  | nil => simp
  | cons k ks ih => rw [List.foldl_cons, ih, List.flatMap_cons, List.append_assoc]

/-- **A chunked body.** -/
theorem parses_chunks (body : QByteArray) :
    Parses scanner InBody .invalid (atSizeLine b v m body)
      (fun p : List Chunk × ChunksEnd ↦ (∀ k ∈ p.1, k.WellFormed) ∧ p.2.WellFormed)
      (fun p ↦ p.1.flatMap Chunk.render ++ p.2.render) fun p rest ↦
        ⟨some p.2.outcome, atChunksEnd b v m (body ++ p.1.flatMap Chunk.data) p.2, rest⟩ := by
  have h := parses_lines (M := scanner) (atSizeLine b v m) (fun _ k ↦ k.WellFormed)
    (fun body k ↦ body ++ k.data) Chunk.render (fun _ e ↦ e.WellFormed) ChunksEnd.render
    (fun body e rest ↦ ⟨some e.outcome, atChunksEnd b v m body e, rest⟩) exists_chunk_or_end
    (fun body _ he ↦ scan_chunksEnd he body) (fun body _ hk ↦ scan_chunk hk body)
    (fun _ k hk ↦ by simp [Chunk.render, hk.size.1]) body
  refine h.reindex id (fun p hp ↦ ⟨linesOk_iff_forall.1 hp.1, hp.2⟩)
    (fun p hp ↦ ⟨p, ⟨linesOk_iff_forall.2 hp.1, hp.2⟩, rfl⟩) (fun _ ↦ rfl) fun p _ ↦ ?_
  rw [foldl_data]
  rfl

/-! ### Whole messages -/

namespace WireMessage

/-- The parser at the end of the message. -/
def atEnd (w : WireMessage) : Cursor :=
  cursorAt w.body.state w.body.remaining w.head.buffer [] w.message

end WireMessage

/-- The body that follows a head, by framing. -/
theorem scan_body {f : Framing} {h : Head} {body : Body} (hbody : body.WellFormed f)
    (hf : framing h.headers = f) {mode : Mode} (hh : h.WellFormed mode) (p : HttpMessageParser)
    (rest : QByteArray) :
    scanner.scan (Cursor.start mode p).forget (h.render ++ (body.render ++ rest)) =
      ⟨some body.outcome, (WireMessage.mk h body).atEnd, rest⟩ := by
  have hempty := h.message_eq_with_body_nil
  rw [scan_head hh, hf]
  cases f with
  | none =>
    cases body with
    | none =>
      rw [Body.render, List.nil_append, Head.atEnd, hempty]
      rfl
    | fixed | chunked => exact hbody.elim
  | malformed => exact hbody.elim
  | fixed length =>
    cases body with
    | fixed content =>
      have hread := (parses_fixed (b := h.buffer) (v := []) (m := h.message)
        (length_ne_zero_of_framing hf)).complete content hbody rest
      rw [h.message_body, List.nil_append] at hread
      exact hread
    | none | chunked => exact hbody.elim
  | chunked =>
    cases body with
    | chunked chunks last =>
      have hread := (parses_chunks (b := h.buffer) (v := []) (m := h.message) []).complete
        (chunks, last) hbody rest
      rw [atSizeLine, ← hempty] at hread
      exact hread
    | none | fixed => exact hbody.elim

/-- What gets past a head has read a body. -/
theorem exists_body {mode : Mode} {h : Head} (hh : h.WellFormed mode) (p : HttpMessageParser)
    (rest : QByteArray) :
    Stuck (fun _ ↦ True) .invalid (scanner.scan (Cursor.start mode p).forget (h.render ++ rest)) ∨
      ∃ body : Body, body.WellFormed (framing h.headers) ∧
        ∃ rest', rest = body.render ++ rest' := by
  have hempty := h.message_eq_with_body_nil
  rw [scan_head hh]
  cases hf : framing h.headers with
  | none => exact Or.inr ⟨.none, trivial, rest, rfl⟩
  | malformed => exact Or.inl (Or.inl rfl)
  | fixed length =>
    obtain hs | ⟨content, hcontent, rest', rfl⟩ :=
      (parses_fixed (b := h.buffer) (v := []) (m := h.message)
        (length_ne_zero_of_framing hf)).sound rest
    · exact Or.inl (hs.mono fun _ _ ↦ trivial)
    · exact Or.inr ⟨.fixed content, hcontent, rest', rfl⟩
  | chunked =>
    have hread := (parses_chunks (b := h.buffer) (v := []) (m := h.message) []).sound rest
    rw [atSizeLine, ← hempty] at hread
    obtain hs | ⟨⟨chunks, last⟩, hchunks, rest', rfl⟩ := hread
    · exact Or.inl (hs.mono fun _ _ ↦ trivial)
    · exact Or.inr ⟨.chunked chunks last, hchunks, rest', rfl⟩

/-- **The parser reads messages.** A run from a reset parser that is not rejected and does not ask
for more has read a well-formed message, and a well-formed message is read to its end, whatever
follows it. -/
theorem parses_message (mode : Mode) (p : HttpMessageParser) :
    Parses scanner (fun _ ↦ True) .invalid (Cursor.start mode p).forget
      (WireMessage.WellFormed mode) WireMessage.render
      fun w rest ↦ ⟨some w.outcome, w.atEnd, rest⟩ where
  sound stream := by
    by_cases hs : Stuck InHead .invalid (scanner.scan (Cursor.start mode p).forget stream)
    · exact Or.inl (hs.mono fun _ _ ↦ trivial)
    · obtain ⟨h, hh, rest, rfl⟩ := exists_head_of_not_stuck hs
      refine (exists_body hh p rest).imp_right ?_
      rintro ⟨body, hbody, rest', rfl⟩
      exact ⟨⟨h, body⟩, ⟨hh, hbody⟩, rest', by rw [WireMessage.render, List.append_assoc]⟩
  complete w hw rest := by
    rw [WireMessage.render, List.append_assoc]
    exact scan_body hw.body rfl hw.head p rest

/-- **Accepted streams** begin with a well-formed message, which is what is stored. -/
theorem exists_wireMessage_of_parse {mode : Mode} {p : HttpMessageParser}
    {stream rest : QByteArray} {c : Cursor}
    (h : parse (Cursor.start mode p).forget stream = (.valid, c, rest)) :
    ∃ w : WireMessage, w.WellFormed mode ∧ w.outcome = .valid ∧ stream = w.render ++ rest ∧
      c.message = w.message := by
  rw [parse_eq_scan rfl] at h
  obtain ⟨hout, hstate, hrest⟩ : outcomeOf _ = .valid ∧ _ = c ∧ _ = rest := by
    simpa only [Prod.mk.injEq] using h
  have hns : ¬ Stuck (fun _ ↦ True) .invalid
      (scanner.scan (Cursor.start mode p).forget stream) := by
    rintro (hs | ⟨hs, -⟩) <;> rw [hs] at hout <;> exact absurd hout (by simp [outcomeOf])
  obtain ⟨w, hw, rest', rfl, hscan⟩ := (parses_message mode p).exists_of_not_stuck hns
  rw [hscan] at hout hstate hrest
  exact ⟨w, hw, hout, by rw [← hrest], by rw [← hstate]; rfl⟩

/-- A well-formed message with a good end is accepted. -/
theorem parse_render {mode : Mode} {w : WireMessage} (hw : w.WellFormed mode)
    (hout : w.outcome = .valid) (p : HttpMessageParser) (rest : QByteArray) :
    parse (Cursor.start mode p).forget (w.render ++ rest) = (.valid, w.atEnd, rest) := by
  rw [parse_eq_scan rfl, (parses_message mode p).complete w hw, hout]
  rfl

/-- A scan that ends with `Valid` has read a well-formed message, which is what is stored. -/
theorem exists_wireMessage_of_scan {mode : Mode} {p : HttpMessageParser} {bytes : QByteArray}
    (h : (scanner.scan (.start mode p) bytes).verdict = some .valid) :
    ∃ w : WireMessage, w.WellFormed mode ∧ w.outcome = .valid ∧ w.render <+: bytes ∧
      (scanner.scan (.start mode p) bytes).state.message = w.message := by
  have hparse : parse (Cursor.start mode p).forget bytes =
      (.valid, (scanner.scan (.start mode p) bytes).state.forget,
        (scanner.scan (.start mode p) bytes).rest) := by
    rw [parse_eq_scan rfl, scan_forget, h]
    rfl
  obtain ⟨w, hw, hout, hbytes, hmessage⟩ := exists_wireMessage_of_parse hparse
  exact ⟨w, hw, hout, ⟨_, hbytes.symm⟩, hmessage⟩

/-- A scan that gets to the end of a message with a good end ends there. -/
theorem verdict_scan_render {mode : Mode} {w : WireMessage} (hw : w.WellFormed mode)
    (hout : w.outcome = .valid) (p : HttpMessageParser) :
    (scanner.scan (.start mode p) w.render).verdict = some .valid := by
  have hscan := scan_forget (.start mode p) (w.render ++ [])
  rw [(parses_message mode p).complete w hw, List.append_nil, hout] at hscan
  exact (congrArg Scan.verdict hscan).symm

/-- **What a head is accepted with**: a body that goes with its framing and has a good end. -/
theorem parse_head_eq_valid_iff {mode : Mode} {h : Head} (hh : h.WellFormed mode)
    (p : HttpMessageParser) {stream rest : QByteArray} {c : Cursor} :
    parse (Cursor.start mode p).forget (h.render ++ stream) = (.valid, c, rest) ↔
      ∃ body : Body, body.WellFormed (framing h.headers) ∧ body.outcome = .valid ∧
        stream = body.render ++ rest ∧ c = (WireMessage.mk h body).atEnd := by
  constructor
  · intro hparse
    rw [parse_eq_scan rfl] at hparse
    obtain ⟨hout, hstate, hrest⟩ : outcomeOf _ = .valid ∧ _ = c ∧ _ = rest := by
      simpa only [Prod.mk.injEq] using hparse
    obtain (hs | ⟨hs, -⟩) | ⟨body, hbody, rest', rfl⟩ := exists_body hh p stream
    · rw [hs] at hout
      exact absurd hout (by simp [outcomeOf])
    · rw [hs] at hout
      exact absurd hout (by simp [outcomeOf])
    · rw [scan_body hbody rfl hh p rest'] at hout hstate hrest
      exact ⟨body, hbody, hout, by rw [← hrest], hstate.symm⟩
  · rintro ⟨body, hbody, hout, rfl, rfl⟩
    rw [parse_eq_scan rfl, scan_body hbody rfl hh p rest, hout]
    rfl

end HttpMessageParser

end Amanuensis
