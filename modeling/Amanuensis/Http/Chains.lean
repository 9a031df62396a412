import Mathlib.Data.List.Chain
import Amanuensis.Http.Forwarding
import Amanuensis.Http.Lengths

/-!
# Chains of proxies

A request that has been forwarded is a request, and another proxy may forward it again. Its head
does not change any more: each name is there once, in canonical spelling (`forwardedHead_idem`). Nor
does a body of known length, since the second proxy has only accepted it because nothing of it has
been lost. So all proxies but the first forward what they get, byte for byte. A chunked request gets
shorter with every proxy, since each takes chunk framing away and puts none in (`chain_of_relays`).
-/

namespace Amanuensis

namespace QString

/-! ### Bodies that keep their length -/

/-- What is decoded without getting shorter is ASCII, with a mark for each byte that is not. -/
theorem ascii_of_length_utf8Decode {l : List UInt8}
    (hl : (utf8Decode 0 l).length = l.length) :
    ∀ b ∈ toLatin1 (utf8Decode 0 l), b.toNat < 0x80 := by
  induction l with
  | nil => simp [utf8Decode]
  | cons b src ih =>
    rw [utf8Decode] at hl ⊢
    split_ifs at hl ⊢ with hb
    · rw [toLatin1_cons, List.forall_mem_cons, QChar.toLatin1_toUInt16]
      exact ⟨hb, ih (Nat.succ.inj hl)⟩
    · rcases hseq : utf8Sequence b src with - | ⟨uc, k⟩
      · rw [hseq] at hl
        rw [toLatin1_cons, List.forall_mem_cons, QChar.toLatin1_replacementCharacter]
        exact ⟨by decide, ih (Nat.succ.inj hl)⟩
      · -- a sequence of several bytes loses one of them
        obtain ⟨hle, hsrc⟩ := length_utf16_le_of_utf8Sequence hseq
        have hk := length_utf8Decode_le k src
        rw [hseq] at hl
        simp only [List.length_append, List.length_cons] at hl
        omega

theorem ascii_of_length_fromUtf8 {bytes : QByteArray}
    (hbytes : (fromUtf8 bytes).length = bytes.length) :
    ∀ b ∈ toLatin1 (fromUtf8 bytes), b.toNat < 0x80 := by
  rw [fromUtf8] at hbytes ⊢
  split_ifs at hbytes ⊢ with hbom
  · have hle := length_utf8Decode_le 0 (bytes.drop 3)
    have h3 := congrArg List.length hbom
    simp only [utf8Bom, List.length_take, List.length_cons, List.length_nil] at h3
    simp only [List.length_drop] at hle
    omega
  · exact ascii_of_length_utf8Decode hbytes

/-- A list of numbers is no number. -/
theorem toULongLong_of_comma {s : QString} (hs : QChar.ofChar ',' ∈ s) : s.toULongLong = none := by
  have hdrop {t : QString} (ht : QChar.ofChar ',' ∈ t) :
      QChar.ofChar ',' ∈ t.dropWhile QChar.isSpace := by
    rw [← List.takeWhile_append_dropWhile (p := QChar.isSpace) (l := t), List.mem_append] at ht
    obtain hmem | hmem := ht
    · have hspace := List.mem_takeWhile_imp hmem
      exact absurd hspace (by decide)
    · exact hmem
  have htrimmed : QChar.ofChar ',' ∈ s.trimmed := by
    rw [trimmed, List.mem_reverse]
    exact hdrop (List.mem_reverse.2 (hdrop hs))
  have hunsigned : QChar.ofChar ',' ∈ s.unsigned := by
    rw [unsigned]
    split_ifs with hplus
    · obtain ⟨c, t, heq⟩ := List.exists_cons_of_ne_nil (List.ne_nil_of_mem htrimmed)
      rw [heq] at hplus htrimmed ⊢
      obtain rfl : c = QChar.ofChar '+' := by simpa using hplus
      exact (List.mem_cons.1 htrimmed).resolve_left (by decide)
    · exact htrimmed
  cases hnumber : s.toULongLong with
  | none => rfl
  | some length =>
    obtain ⟨-, hall, -⟩ := toULongLong_eq_some_iff.1 hnumber
    exact absurd (List.all_eq_true.1 hall _ hunsigned) (by decide)

end QString

open HttpMessageParser

namespace HttpMessageParser

variable {m : HttpMessage}

/-! ### A head that has been forwarded -/

theorem names_forwardedHead (hr : m.headers.Received) (hc : m.headers.Coherent) :
    (forwardedHead m).headers.names = m.headers.names := by
  have hcanonical : ((m.headers.names.map fun name ↦ (name, m.headers.joined name)).map
      fun field ↦ Headers.canonicalize field.1) = m.headers.names := by
    rw [List.map_map]
    exact (List.map_congr_left hc.canonical).trans (List.map_id _)
  rw [headers_forwardedHead hr hc, Headers.names_insertAll Headers.coherent_empty, hcanonical]
  · rfl
  · rw [hcanonical]
    exact hc.nodup

theorem joined_forwardedHead (hr : m.headers.Received) (hc : m.headers.Coherent) {name : QString}
    (hname : name ∈ m.headers.names) :
    (forwardedHead m).headers.joined name = m.headers.joined name := by
  rw [Headers.joined, findByName_forwardedHead hr hc hname, List.intercalate_singleton]

/-- The fields that have been forwarded are forwarded as they are. -/
theorem forwardedFields_forwardedHead (hr : m.headers.Received) (hc : m.headers.Coherent) :
    forwardedFields (forwardedHead m).headers = forwardedFields m.headers := by
  rw [forwardedFields, forwardedFields, names_forwardedHead hr hc]
  refine List.map_congr_left fun name hname ↦ ?_
  rw [joined_forwardedHead hr hc hname]

/-- A version that is written with digits is read back. -/
theorem intValue_number {v : ℤ} (hv : v < 2 ^ 31)
    (hdigits : ∀ b ∈ (QString.number v).toLatin1, isDigit b = true) :
    intValue (QString.number v).toLatin1 = v := by
  have hnonneg : 0 ≤ v := by
    by_contra hneg
    have hlt : v < 0 := by omega
    rw [QString.number, if_pos hlt, QString.toLatin1_cons] at hdigits
    exact absurd (hdigits _ List.mem_cons_self) (by decide)
  obtain ⟨n, rfl⟩ := Int.eq_ofNat_of_zero_le hnonneg
  rw [toLatin1_number_natCast]
  exact intValue_decimal (by omega)

theorem intValue_lt (digits : QByteArray) : intValue digits < 2 ^ 31 := by
  have hlt := Int.bmod_lt (x := natValue digits) (m := 2 ^ 32) (by decide)
  rw [intValue_eq_toInt, toInt]
  omega

/-- **A forwarded head is forwarded as it is.** -/
theorem forwardedHead_idem {h : Head} (hh : h.WellFormed .request)
    (hforwarded : (forwardedHead h.message).WellFormed .request) :
    forwardedHead (forwardedHead h.message).message = forwardedHead h.message := by
  obtain ⟨hr, hc⟩ := received_and_coherent_headers hh
  obtain ⟨l | l, ls⟩ := h
  · have hfields := forwardedFields_forwardedHead (m := Head.message ⟨.request l, ls⟩) hr hc
    obtain ⟨-, hstart⟩ := hforwarded.start
    have hmajor := intValue_number (intValue_lt l.major) hstart.major
    have hminor := intValue_number (intValue_lt l.minor) hstart.minor
    replace hfields : forwardedFields (forwardedHead (Head.message ⟨.request l, ls⟩)).headers =
        forwardedFields (Head.headers ⟨.request l, ls⟩) := hfields
    have hstart : (forwardedHead (forwardedHead (Head.message ⟨.request l, ls⟩)).message).start =
        (forwardedHead (Head.message ⟨.request l, ls⟩)).start := by
      simp only [forwardedHead, Head.message, StartLine.message, RequestLine.message]
        at hmajor hminor ⊢
      simp only [hmajor, hminor, QString.toLatin1_fromLatin1]
    have hlines : (forwardedHead (forwardedHead (Head.message ⟨.request l, ls⟩)).message).lines =
        (forwardedHead (Head.message ⟨.request l, ls⟩)).lines :=
      congrArg (List.map fieldLine) hfields
    exact congrArg₂ Head.mk hstart hlines
  · exact absurd hh.start.1 (by simp)

/-! ### The framing of a head that has been forwarded -/

/-- A name has one value then, or none. -/
theorem findByName_forwardedHead_eq (hr : m.headers.Received) (hc : m.headers.Coherent)
    {name : QString} (hname : Headers.canonicalize name = name) :
    (forwardedHead m).headers.findByName name =
      if m.headers.findByName name = [] then [] else [m.headers.joined name] := by
  have hnone {h : Headers} (hh : h.Coherent) : name ∉ h.names ↔ h.findByName name = [] := by
    rw [hh.mem_names, Headers.findByName, List.map_eq_nil_iff, List.filter_eq_nil_iff, hname]
    constructor
    · rintro hnot ⟨n, v⟩ hmem heq
      obtain rfl : n = name := by simpa using heq
      exact hnot ⟨v, hmem⟩
    · rintro hnot ⟨v, hmem⟩
      exact hnot _ hmem (by simp)
  by_cases hmem : name ∈ m.headers.names
  · rw [if_neg (mt (hnone hc).2 (not_not.2 hmem)), findByName_forwardedHead hr hc hmem]
  · have hforwarded : (forwardedHead m).headers.Coherent := by
      rw [headers_forwardedHead hr hc]
      exact Headers.coherent_empty.insertAll _
    rw [if_pos ((hnone hc).1 hmem), ← hnone hforwarded, names_forwardedHead hr hc]
    exact hmem

/-- Chunked coding is announced as before. -/
theorem framing_forwardedHead_eq_chunked_iff (hr : m.headers.Received)
    (hc : m.headers.Coherent) :
    framing (forwardedHead m).headers = .chunked ↔ framing m.headers = .chunked := by
  rw [framing_eq_chunked_iff, framing_eq_chunked_iff,
    findByName_forwardedHead_eq hr hc (by decide)]
  split_ifs with hnil
  · rw [hnil]
  · rw [List.any_cons, List.any_nil, Bool.or_false, Headers.joined, listsChunked_intercalate]

/-- **A length is announced as before**, unless there is no sense in it: several lengths make a
list, which is no number. -/
theorem framing_forwardedHead_eq (hr : m.headers.Received) (hc : m.headers.Coherent)
    (hchunked : framing m.headers ≠ .chunked)
    (hmalformed : framing (forwardedHead m).headers ≠ .malformed) :
    framing (forwardedHead m).headers = framing m.headers := by
  have hchunked' := mt (framing_forwardedHead_eq_chunked_iff hr hc).1 hchunked
  have hcanonical : Headers.canonicalize (QString.ofString "Content-Length") =
      QString.ofString "Content-Length" := by decide
  have hlength := findByName_forwardedHead_eq hr hc hcanonical
  rw [ne_eq, framing_eq_chunked_iff] at hchunked
  rw [framing_eq_chunked_iff] at hchunked'
  rw [framing, if_neg hchunked', hlength] at hmalformed ⊢
  rw [framing, if_neg hchunked]
  rw [Headers.joined] at hmalformed ⊢
  generalize m.headers.findByName (QString.ofString "Content-Length") = values at hmalformed ⊢
  rcases values with - | ⟨value, - | ⟨v, vs⟩⟩
  · rfl
  · rw [if_neg (List.cons_ne_nil _ _), List.intercalate_singleton]
  · refine absurd ?_ hmalformed
    rw [if_neg (List.cons_ne_nil _ _), List.intercalate_cons_cons]
    have hcomma : QChar.ofChar ',' ∈
        value ++ QString.ofString ", " ++ (QString.ofString ", ").intercalate (v :: vs) := by
      simp [QString.ofString]
    simp only [QString.toULongLong_of_comma hcomma]

/-! ### A proxy after a proxy -/

/-- What a request that has been accepted up to its last byte is made of. -/
structure Accepts (x : QByteArray) (w : WireMessage) : Prop where
  wellFormed : w.WellFormed .request
  outcome : w.outcome = .valid
  render : x = w.render

/-- **A proxy relays a request**: it accepts one stream up to its last byte, and forwards the
other. -/
def Relays (x y : QByteArray) : Prop :=
  ∃ p c, parse (Cursor.start .request p).forget x = (.valid, c, []) ∧ Request.format c.message = y

/-- The head of a request that is accepted announces chunks. -/
def AnnouncesChunks (x : QByteArray) : Prop :=
  ∃ p c rest, parse (Cursor.start .request p).forget x = (.valid, c, rest) ∧
    framing c.message.headers = .chunked

theorem Relays.exists_accepts {x y : QByteArray} (h : Relays x y) :
    ∃ w, Accepts x w ∧ y = (forwardedHead w.head.message).render ++
      (QString.fromUtf8 w.body.content).toLatin1 := by
  obtain ⟨p, c, hparse, rfl⟩ := h
  obtain ⟨w, hw, hout, hrender, hmessage⟩ := exists_wireMessage_of_parse hparse
  rw [List.append_nil] at hrender
  refine ⟨w, ⟨hw, hout, hrender⟩, ?_⟩
  rw [hmessage, format_eq]
  rfl

variable {x y z : QByteArray} {w w' : WireMessage}

theorem Accepts.announcesChunks_iff (hw : Accepts x w) :
    AnnouncesChunks x ↔ framing w.head.headers = .chunked := by
  have hparse (p : HttpMessageParser) :
      parse (Cursor.start .request p).forget x = (.valid, w.atEnd, []) := by
    rw [hw.render, ← List.append_nil w.render]
    exact parse_render hw.wellFormed hw.outcome p []
  constructor
  · rintro ⟨p, c, rest, hc, hchunked⟩
    obtain rfl : w.atEnd = c := (Prod.mk.inj (Prod.mk.inj ((hparse p).symm.trans hc)).2).1
    exact hchunked
  · intro hchunked
    exact ⟨{}, w.atEnd, [], hparse {}, hchunked⟩

/-- **What a second proxy gets** is a request with the head that the first one has written. -/
theorem head_eq_of_relays (hw : Accepts x w)
    (hy : y = (forwardedHead w.head.message).render ++ (QString.fromUtf8 w.body.content).toLatin1)
    (hw' : Accepts y w') : w'.head = forwardedHead w.head.message ∧
      (QString.fromUtf8 w.body.content).toLatin1 = w'.body.render := by
  obtain ⟨hr, hc⟩ := received_and_coherent_headers hw.wellFormed.head
  have hstart : ascii ' ' ∉ w.head.message.method.toLatin1 ∧
      ascii ' ' ∉ w.head.message.uri.toLatin1 := by
    obtain ⟨⟨l | l, ls⟩, body⟩ := w
    · have hsep := hw.wellFormed.head.start.2.separated
      simp only [Head.message, StartLine.message, RequestLine.message, QString.toLatin1_fromLatin1]
      exact ⟨hsep.method, hsep.uri⟩
    · exact absurd hw.wellFormed.head.start.1 (by simp)
  have hrender := hy.symm.trans hw'.render
  exact head_eq_of_render_append_eq hr hc hstart.1 hstart.2 hw'.wellFormed.head hrender

/-- A body of known length has kept its length on the way to a second proxy, so that it is ASCII. -/
theorem content_eq_of_relays {f : Framing} (hf : f ≠ .chunked) (hbody : w.body.WellFormed f)
    (hbody' : w'.body.WellFormed f)
    (hrender : (QString.fromUtf8 w.body.content).toLatin1 = w'.body.render) :
    (QString.fromUtf8 w'.body.content).toLatin1 = w'.body.render := by
  obtain ⟨head, body⟩ := w
  obtain ⟨head', body'⟩ := w'
  cases f with
  | chunked => exact absurd rfl hf
  | malformed => cases body <;> exact hbody.elim
  | none =>
    cases body' with
    | none => rfl
    | fixed | chunked => exact hbody'.elim
  | fixed length =>
    cases body with
    | none | chunked => exact hbody.elim
    | fixed content =>
      cases body' with
      | none | chunked => exact hbody'.elim
      | fixed content' =>
        have hlength : (QString.fromUtf8 content).length = content.length := by
          have hsame := congrArg List.length hrender
          rw [QString.length_toLatin1] at hsame
          exact hsame.trans (hbody'.trans hbody.symm)
        refine (QString.toLatin1_fromUtf8_eq_self_iff content').2 ?_
        rw [← show _ = content' from hrender]
        exact QString.ascii_of_length_fromUtf8 hlength

/-- **A second proxy** forwards what it gets, unless chunks are announced: then it forwards less. -/
theorem second_of_relays (hxy : Relays x y) (hyz : Relays y z) :
    (AnnouncesChunks y ↔ AnnouncesChunks x) ∧ (¬ AnnouncesChunks x → z = y) ∧
      (AnnouncesChunks x → z.length + 5 ≤ y.length) := by
  obtain ⟨w, hw, hy⟩ := hxy.exists_accepts
  obtain ⟨w', hw', hz⟩ := hyz.exists_accepts
  obtain ⟨hhead, hrender⟩ := head_eq_of_relays hw hy hw'
  obtain ⟨hr, hc⟩ := received_and_coherent_headers hw.wellFormed.head
  have hforwarded := hw'.wellFormed.head
  rw [hhead] at hforwarded
  rw [hhead, forwardedHead_idem hw.wellFormed.head hforwarded] at hz
  rw [hw'.announcesChunks_iff, hw.announcesChunks_iff, hhead]
  refine ⟨framing_forwardedHead_eq_chunked_iff hr hc, fun hchunked ↦ ?_, fun hchunked ↦ ?_⟩
  · have hbody' := hw'.wellFormed.body
    rw [hhead, framing_forwardedHead_eq hr hc hchunked ?_] at hbody'
    · rw [hy, hz, content_eq_of_relays hchunked hw.wellFormed.body hbody' hrender, hrender]
    · intro hmalformed
      rw [hmalformed] at hbody'
      obtain ⟨head', _ | _ | _⟩ := w'
      all_goals exact hbody'.elim
  · have hchunked' : framing w'.head.headers = .chunked := by
      rw [hhead]
      exact framing_forwardedHead hr hc hchunked
    have hlong := length_content_add_five_le hw'.wellFormed.body hchunked' hw'.outcome
    have hshort := QString.length_fromUtf8_le w'.body.content
    rw [hy, hz, hrender, List.length_append, List.length_append, QString.length_toLatin1]
    omega

/-- **What goes through a chain of proxies**: behind the first one the same bytes, or, if chunks are
announced, fewer with every proxy. -/
structure Chained (x y : QByteArray) (ys : List QByteArray) : Prop where
  same : ¬ AnnouncesChunks x → ∀ z ∈ ys, z = y
  shorter : AnnouncesChunks x → (y :: ys).IsChain fun y z ↦ z.length + 5 ≤ y.length

/-- **A chain of proxies.** -/
theorem chained_of_relays {ys : List QByteArray} (hchain : (x :: y :: ys).IsChain Relays) :
    Chained x y ys := by
  induction ys generalizing x y with
  | nil => exact ⟨fun _ _ hz ↦ absurd hz List.not_mem_nil, fun _ ↦ .singleton y⟩
  | cons z zs ih =>
    obtain ⟨hxy, hrest⟩ := List.isChain_cons_cons.1 hchain
    obtain ⟨hannounces, hsame, hshorter⟩ := second_of_relays hxy (List.isChain_cons_cons.1 hrest).1
    have hnext := ih hrest
    constructor
    · intro hchunked
      obtain rfl := hsame hchunked
      exact List.forall_mem_cons.2 ⟨rfl, hnext.same (mt hannounces.1 hchunked)⟩
    · intro hchunked
      exact List.isChain_cons_cons.2 ⟨hshorter hchunked, hnext.shorter (hannounces.2 hchunked)⟩

/-! ### Two chains -/

theorem relays_of_parse {x y : QByteArray}
    (hparse : (parse (Cursor.start .request {}).forget x).1 = .valid ∧
      (parse (Cursor.start .request {}).forget x).2.2 = [])
    (hformat : Request.format (parse (Cursor.start .request {}).forget x).2.1.message = y) :
    Relays x y :=
  ⟨{}, _, Prod.ext hparse.1 (Prod.ext rfl hparse.2), hformat⟩

/-- A request with a name in several spellings. -/
def viaPost : QByteArray :=
  asciiBytes "POST / HTTP/1.1\r\nvia: a\r\nVIA: b\r\ncontent-length: 2\r\n\r\nhi"

/-- What becomes of it. -/
def viaPostForwarded : QByteArray :=
  asciiBytes "POST / HTTP/1.1\r\nVia: b, a\r\nContent-Length: 2\r\n\r\nhi"

theorem relays_viaPost : Relays viaPost viaPostForwarded :=
  relays_of_parse (by decide +kernel) (by decide +kernel)

theorem relays_viaPostForwarded : Relays viaPostForwarded viaPostForwarded :=
  relays_of_parse (by decide +kernel) (by decide +kernel)

/-- The head of a chunked request. -/
def chunkedHead : QByteArray := asciiBytes "POST / HTTP/1.1\r\nTransfer-Encoding: chunked\r\n\r\n"

/-- Chunks within a chunk. -/
def nestedChunks : QByteArray := asciiBytes "5\r\n0\r\n\r\n\r\n0\r\n\r\n"

theorem relays_nestedChunks :
    Relays (chunkedHead ++ nestedChunks) (chunkedHead ++ asciiBytes "0\r\n\r\n") :=
  relays_of_parse (by decide +kernel) (by decide +kernel)

theorem relays_lastChunk : Relays (chunkedHead ++ asciiBytes "0\r\n\r\n") chunkedHead :=
  relays_of_parse (by decide +kernel) (by decide +kernel)

/-- A chain of each kind. -/
theorem viaPost_nestedChunks_chained :
    Chained viaPost viaPostForwarded [viaPostForwarded, viaPostForwarded] ∧
      Chained (chunkedHead ++ nestedChunks) (chunkedHead ++ asciiBytes "0\r\n\r\n")
        [chunkedHead] := by
  constructor
  · refine chained_of_relays (.cons_cons relays_viaPost ?_)
    exact .cons_cons relays_viaPostForwarded (.cons_cons relays_viaPostForwarded (.singleton _))
  · exact chained_of_relays (.cons_cons relays_nestedChunks (.cons_cons relays_lastChunk
      (.singleton _)))

end HttpMessageParser

end Amanuensis
