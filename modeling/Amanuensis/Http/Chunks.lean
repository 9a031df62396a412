import Amanuensis.Http.Codings
import Amanuensis.Http.Widths

/-!
# Chunked bodies

`DataChunk` is a chunk as RFC 7230 means it, with the size a number and not a number modulo
`2 ^ 64`. After a head that selects chunked decoding the parser reads every list of such chunks up
to a last chunk written with zeros; and whatever it accepts is such a list, as long as the sizes it
reads are below `2 ^ 64` (`decodesChunks`).
-/

namespace Amanuensis

namespace HttpMessageParser

open Scanner

/-! ### Chunks and their sizes -/

/-- A chunk of data, with its size in hexadecimal digits of either case. -/
structure DataChunk where
  size : QByteArray
  data : QByteArray
  size_hex : ∀ b ∈ size, isHex b = true
  size_value : hexNatValue size = data.length
  data_ne : data ≠ []
  length_lt : data.length < 2 ^ 64

namespace DataChunk

variable (k : DataChunk)

/-- The chunk without what is known of its size. -/
def toChunk : Chunk := ⟨k.size, k.data⟩

/-- The wire form of the chunk. -/
def render : QByteArray := k.toChunk.render

theorem sizeValue_size : (sizeValue k.size).toNat = k.data.length :=
  ((toNat_sizeValue_eq_iff k.size).2 (k.size_value ▸ k.length_lt)).trans k.size_value

theorem wellFormed : k.toChunk.WellFormed where
  size := by
    refine ⟨fun hnil ↦ k.data_ne ?_, k.size_hex⟩
    have hnil : k.size = [] := hnil
    rw [← List.length_eq_zero_iff, ← k.size_value, hnil]
    rfl
  size_ne_zero hzero := by
    have hzero : sizeValue k.size = 0 := hzero
    have hlength := k.sizeValue_size
    rw [hzero] at hlength
    exact k.data_ne (List.length_eq_zero_iff.1 hlength.symm)
  length := k.sizeValue_size.symm

end DataChunk

/-- A chunk whose size fits is a chunk of data. -/
theorem Chunk.WellFormed.exists_dataChunk {k : Chunk} (hk : k.WellFormed)
    (hfit : hexNatValue k.size < 2 ^ 64) : ∃ d : DataChunk, d.toChunk = k := by
  have hvalue := (toNat_sizeValue_eq_iff k.size).2 hfit
  refine ⟨⟨k.size, k.data, hk.size.2, hvalue.symm.trans hk.length.symm, fun hnil ↦ ?_, ?_⟩, rfl⟩
  · have hlength := hk.length
    rw [hnil] at hlength
    exact hk.size_ne_zero (UInt64.toNat_inj.1 hlength.symm)
  · rw [hk.length]
    exact UInt64.toNat_lt _

/-- The size of a last chunk: one or more zeros. -/
def zeros (n : ℕ) : QByteArray := List.replicate (n + 1) (ascii '0')

theorem isSize_zeros (n : ℕ) : IsSize (zeros n) ∧ sizeValue (zeros n) = 0 := by
  have hzero : ∀ b ∈ zeros n, b = ascii '0' := fun b hb ↦ List.eq_of_mem_replicate hb
  have hhex : ∀ b ∈ zeros n, isHex b = true := by
    intro b hb
    rw [hzero b hb]
    decide
  refine ⟨⟨by simp [zeros], hhex⟩, ?_⟩
  rw [sizeValue_eq_ofNat, (hexNatValue_eq_zero_iff hhex).2 hzero]
  rfl

/-- A size that fits and is zero consists of zeros. -/
theorem exists_eq_zeros {size : QByteArray} (hsize : IsSize size) (hzero : sizeValue size = 0)
    (hfit : hexNatValue size < 2 ^ 64) : ∃ n, size = zeros n := by
  have hvalue : hexNatValue size = 0 := by
    rw [← (toNat_sizeValue_eq_iff size).2 hfit, hzero]
    rfl
  have hall := (hexNatValue_eq_zero_iff hsize.2).1 hvalue
  obtain ⟨n, hn⟩ := Nat.exists_eq_succ_of_ne_zero fun h0 ↦ hsize.1 (List.length_eq_zero_iff.1 h0)
  exact ⟨n, by rw [zeros, ← Nat.succ_eq_add_one, ← hn]; exact List.eq_replicate_iff.2 ⟨rfl, hall⟩⟩

/-- Chunks of data, a last chunk and no trailer. -/
def chunkedBody (chunks : List DataChunk) (n : ℕ) : QByteArray :=
  chunks.flatMap DataChunk.render ++ (zeros n ++ (crlf ++ crlf))

/-! ### The sizes read -/

variable {b v : QByteArray} {m : HttpMessage}

theorem scan_chunks {ks : List Chunk} (hks : ∀ k ∈ ks, k.WellFormed) (body rest : QByteArray) :
    scanner.scan (atSizeLine b v m body) (ks.flatMap Chunk.render ++ rest) =
      scanner.scan (atSizeLine b v m (body ++ ks.flatMap Chunk.data)) rest := by
  induction ks generalizing body with
  | nil => simp
  | cons k ks ih =>
    obtain ⟨hk, hks⟩ := List.forall_mem_cons.1 hks
    rw [List.flatMap_cons, List.append_assoc, scan_chunk hk, ih hks, List.flatMap_cons,
      List.append_assoc]

/-- A size is noted up to the byte after it. -/
theorem scan_size_noted {size : QByteArray} (hsize : IsSize size) (r : UInt64) (n : Numbers)
    (rest : QByteArray) :
    numberScanner.scan (cursorAt .chunkLengthStart r b v m, n) (size ++ rest) =
      numberScanner.scan (cursorAt .chunkLength (sizeValue size) b v m,
        { n with size := size, loaded := sizeValue size }) rest := by
  obtain ⟨d, ds, rfl⟩ := List.exists_cons_of_ne_nil hsize.1
  obtain ⟨hd, hds⟩ := List.forall_mem_cons.1 hsize.2
  have hfirst : numberScanner.step (cursorAt .chunkLengthStart r b v m, n) d = _ :=
    scanner.step_annotate (scanner_step_chunkLengthStart hd) n
  rw [List.cons_append, numberScanner.scan_cons_of_none hfirst]
  have hread : n.read (cursorAt .chunkLengthStart r b v m) d
      (cursorAt .chunkLength (sizeValue [d]) b v m) =
        { n with size := [d], loaded := sizeValue [d] } := by simp [Numbers.read, hd]
  rw [hread]
  refine numberScanner.scan_collect (g := fun t ↦ (cursorAt .chunkLength (sizeValue t) b v m,
    { n with size := t, loaded := sizeValue t })) (fun t a ha ↦ ?_) ds hds [d] rest
  refine (scanner.step_annotate (scanner_step_chunkLength t ha) _).trans ?_
  simp [Numbers.read, ha]

/-- **The size noted** after a run up to a size line. -/
theorem size_numbersRead {mode : Mode} {p : HttpMessageParser} {bytes : QByteArray} {r : UInt64}
    (hscan : scanner.scan (Cursor.start mode p).forget bytes =
      ⟨none, cursorAt .chunkLengthStart r b v m, []⟩)
    {size : QByteArray} (hsize : IsSize size) :
    (numbersRead mode p (bytes ++ size)).size = size := by
  rw [scanner.scan_annotate Numbers.read _ {}] at hscan
  obtain ⟨hnone, hstate, -⟩ := Scan.ext_iff.1 hscan
  have hpair : (numberScanner.scan ((Cursor.start mode p).forget, {}) bytes).state =
      (cursorAt .chunkLengthStart r b v m, numbersRead mode p bytes) := Prod.ext hstate rfl
  have hnoted := scan_size_noted (b := b) (v := v) (m := m) hsize r (numbersRead mode p bytes) []
  rw [List.append_nil] at hnoted
  rw [numbersRead, numberScanner.scan_append_of_none hnone, hpair, hnoted]
  rfl

/-- The size noted after a head and some chunks. -/
theorem size_numbersRead_chunks {mode : Mode} (p : HttpMessageParser) {h : FoldedHead mode}
    (hchunked : framing h.toHead.headers = .chunked) {chunks : List Chunk}
    (hchunks : ∀ k ∈ chunks, k.WellFormed) {size : QByteArray} (hsize : IsSize size) :
    (numbersRead mode p (h.render ++ chunks.flatMap Chunk.render ++ size)).size = size := by
  have hempty := h.toHead.message_eq_with_body_nil
  have hhead := scan_head h.wellFormed p (chunks.flatMap Chunk.render)
  have hbody := scan_chunks (b := h.toHead.buffer) (v := []) (m := h.toHead.message) hchunks [] []
  rw [hchunked] at hhead
  rw [List.append_nil, List.nil_append, atSizeLine, ← hempty, scanner.scan_nil] at hbody
  exact size_numbersRead (hhead.trans hbody) hsize

variable {mode : Mode}

/-- **Chunked decoding is exact**: after the head, every list of chunks of data with a last chunk is
accepted at its last byte, with the data as the body; and what is accepted, on a stream whose sizes
are below `2 ^ 64`, is such a list. -/
structure DecodesChunks (p : HttpMessageParser) (h : FoldedHead mode) : Prop where
  complete : ∀ (chunks : List DataChunk) (n : ℕ) (rest : QByteArray),
    ∃ c, parse (Cursor.start mode p).forget (h.render ++ (chunkedBody chunks n ++ rest)) =
        (.valid, c, rest) ∧
      c.message.body = chunks.flatMap DataChunk.data
  sound : ∀ stream c rest,
    parse (Cursor.start mode p).forget (h.render ++ stream) = (.valid, c, rest) →
    (∀ bytes, bytes <+: h.render ++ stream →
      hexNatValue (numbersRead mode p bytes).size < 2 ^ 64) →
    ∃ chunks n, stream = chunkedBody chunks n ++ rest ∧
      c.message.body = chunks.flatMap DataChunk.data

theorem flatMap_toChunk_render (chunks : List DataChunk) :
    (chunks.map DataChunk.toChunk).flatMap Chunk.render = chunks.flatMap DataChunk.render := by
  rw [List.flatMap_map]
  rfl

theorem flatMap_toChunk_data (chunks : List DataChunk) :
    (chunks.map DataChunk.toChunk).flatMap Chunk.data = chunks.flatMap DataChunk.data := by
  rw [List.flatMap_map]
  rfl

/-- Chunks whose sizes fit are chunks of data. -/
theorem exists_dataChunks {ks : List Chunk} (hks : ∀ k ∈ ks, k.WellFormed)
    (hfit : ∀ k ∈ ks, hexNatValue k.size < 2 ^ 64) :
    ∃ chunks : List DataChunk, chunks.map DataChunk.toChunk = ks := by
  induction ks with
  | nil => exact ⟨[], rfl⟩
  | cons k ks ih =>
    obtain ⟨hk, hks⟩ := List.forall_mem_cons.1 hks
    obtain ⟨hfit, hfits⟩ := List.forall_mem_cons.1 hfit
    obtain ⟨chunks, hchunks⟩ := ih hks hfits
    obtain ⟨d, hd⟩ := hk.exists_dataChunk hfit
    exact ⟨d :: chunks, by rw [List.map_cons, hd, hchunks]⟩

/-- **A head that selects chunked decoding is followed by chunks.** -/
theorem decodesChunks (p : HttpMessageParser) {h : FoldedHead mode}
    (hselects : h.SelectsChunked p) : DecodesChunks p h := by
  have hchunked : framing h.toHead.headers = .chunked := (h.selectsChunked_iff_framing p).1 hselects
  constructor
  · intro chunks n rest
    have hbody : (Body.chunked (chunks.map DataChunk.toChunk) (.terminator (zeros n))).WellFormed
        (framing h.toHead.headers) := by
      rw [hchunked]
      refine ⟨fun k hk ↦ ?_, isSize_zeros n⟩
      obtain ⟨d, -, rfl⟩ := List.mem_map.1 hk
      exact d.wellFormed
    refine ⟨_, (parse_head_eq_valid_iff h.wellFormed p).2 ⟨_, hbody, rfl, ?_, rfl⟩, ?_⟩
    · rw [Body.render, flatMap_toChunk_render]
      rfl
    · exact flatMap_toChunk_data chunks
  · intro stream c rest hparse hfit
    obtain ⟨body, hbody, hout, rfl, rfl⟩ := (parse_head_eq_valid_iff h.wellFormed p).1 hparse
    rw [hchunked] at hbody
    rcases body with _ | _ | ⟨ks, last⟩
    · exact hbody.elim
    · exact hbody.elim
    obtain ⟨hks, hlast⟩ := hbody
    -- every size line is noted when it has been read
    have hnoted (before : List Chunk) (hbefore : ∀ k ∈ before, k.WellFormed) (size : QByteArray)
        (hsize : IsSize size) (hpre : h.render ++ (before.flatMap Chunk.render ++ size) <+:
          h.render ++ ((Body.chunked ks last).render ++ rest)) : hexNatValue size < 2 ^ 64 := by
      rw [← List.append_assoc] at hpre
      have hnumber := hfit _ hpre
      rwa [size_numbersRead_chunks p hchunked hbefore hsize] at hnumber
    have hfits : ∀ k ∈ ks, hexNatValue k.size < 2 ^ 64 := by
      intro k hk
      obtain ⟨before, after, rfl⟩ := List.append_of_mem hk
      refine hnoted before (fun k' hk' ↦ hks k' (List.mem_append_left _ hk')) k.size
        (hks k hk).size ?_
      rw [List.prefix_append_right_inj]
      simp only [Body.render, List.flatMap_append, List.flatMap_cons, Chunk.render,
        List.append_assoc, List.prefix_append_right_inj]
      exact List.prefix_append _ _
    obtain ⟨chunks, rfl⟩ := exists_dataChunks hks hfits
    cases last with
    | extension | trailer => exact absurd hout (by simp [Body.outcome, ChunksEnd.outcome])
    | terminator size =>
      obtain ⟨n, rfl⟩ := exists_eq_zeros hlast.1 hlast.2 <| hnoted _ hks size hlast.1 (by
        rw [List.prefix_append_right_inj]
        simp only [Body.render, ChunksEnd.render, List.append_assoc, List.prefix_append_right_inj]
        exact List.prefix_append _ _)
      refine ⟨chunks, n, ?_, flatMap_toChunk_data chunks⟩
      rw [Body.render, flatMap_toChunk_render]
      rfl

/-- Chunked decoding after a head with `Transfer-Encoding: chunked`. -/
theorem chunkedPost_decodesChunks : DecodesChunks {} (codedPost "chunked" (by decide)) :=
  decodesChunks {} (by
    simp only [FoldedHead.SelectsChunked]
    decide +kernel)

end HttpMessageParser

end Amanuensis
