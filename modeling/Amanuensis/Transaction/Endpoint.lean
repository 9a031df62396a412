import Amanuensis.Transaction.Handlers

/-!
# The endpoint that is contacted

`open_remote_connection` splits the value of the `Host` header, `establish_tls_tunnel` the target of
`CONNECT`, each with a splitter of its own. The two index types make no difference
(`splitHostValue_eq`): both split at the first colon (`splitTarget_eq_splitAuthority`). That is
where the port begins unless the host is an IPv6 literal, and a port that is there but empty is
passed on as it is. So the endpoint is the one that is named exactly if the host is no literal and
the port not empty (`contactsNamed_iff`).
-/

namespace Amanuensis

namespace QChar

/-- A colon. -/
def colon : QChar := ofChar ':'

end QChar

namespace QString

/-- `QString::indexOf`. -/
def indexOf (s : QString) (c : QChar) : Int64 :=
  match s.idxOf? c with
  | some i => Int64.ofNat i
  | none => -1

/-- `QString::sliced`, from a position on. -/
def sliced (s : QString) (pos : Int64) : QString := s.drop pos.toNatClampNeg

/-- `QString::sliced`, from a position on and of a length. -/
def slicedTo (s : QString) (pos n : Int64) : QString := (s.sliced pos).take n.toNatClampNeg

end QString

namespace Transaction

open QChar (colon)

variable {m : Machine} {l r authority defaultPort host port : QString} {rest : List QString}

/-! ### The two splitters -/

/-- The splitter of `open_remote_connection`, which keeps the index in a `size_t`. -/
def splitHostValue (host defaultPort : QString) : QString × QString :=
  let separator : UInt64 := (host.indexOf colon).toUInt64
  if separator ≠ (-1 : Int64).toUInt64 then
    (host.slicedTo 0 separator.toInt64, host.sliced (separator + 1).toInt64)
  else (host, defaultPort)

/-- The splitter of `establish_tls_tunnel`, which keeps the index as it is. -/
def splitTarget (host defaultPort : QString) : QString × QString :=
  let separator := host.indexOf colon
  if separator ≠ -1 then (host.slicedTo 0 separator, host.sliced (separator + 1))
  else (host, defaultPort)

/-- **The two splitters are one**: the index type makes no difference. -/
theorem splitHostValue_eq (authority defaultPort : QString) :
    splitHostValue authority defaultPort = splitTarget authority defaultPort := by
  have hiff : (authority.indexOf colon).toUInt64 = (-1 : Int64).toUInt64 ↔
      authority.indexOf colon = -1 :=
    ⟨fun h ↦ congrArg UInt64.toInt64 h, congrArg Int64.toUInt64⟩
  rw [splitHostValue, splitTarget]
  by_cases hnone : authority.indexOf colon = -1
  · rw [if_neg (not_not.2 (hiff.2 hnone)), if_neg (not_not.2 hnone)]
  · rw [if_pos (hiff.not.2 hnone), if_pos hnone, UInt64.toInt64_add, Int64.toInt64_toUInt64]
    rfl

theorem idxOf?_colon (hl : colon ∉ l) : (l ++ colon :: r).idxOf? colon = some l.length := by
  induction l with
  | nil => simp [List.idxOf?_cons]
  | cons c l ih =>
    have hc : (c == colon) = false := beq_eq_false_iff_ne.2 (List.ne_of_not_mem_cons hl).symm
    rw [List.cons_append, List.idxOf?_cons, hc, ih (List.not_mem_of_not_mem_cons hl)]
    rfl

theorem splitAuthority_of_not_mem (defaultPort : QString) (hl : colon ∉ l) :
    splitAuthority l defaultPort = (l, defaultPort) := by
  have hnone : l.idxOf? colon = none := List.idxOf?_eq_none_iff.2 hl
  rw [splitAuthority, ← colon, hnone]

theorem splitAuthority_append_colon (r defaultPort : QString) (hl : colon ∉ l) :
    splitAuthority (l ++ colon :: r) defaultPort = (l, r) := by
  rw [splitAuthority, ← colon, idxOf?_colon hl]
  simp

/-- Both split at the first colon. The size of a `QString` is a `qsizetype`. -/
theorem splitTarget_eq_splitAuthority (defaultPort : QString)
    (hsize : authority.length < 2 ^ 63) :
    splitTarget authority defaultPort = splitAuthority authority defaultPort := by
  by_cases hcolon : colon ∈ authority
  · obtain ⟨l, r, rfl, hl⟩ := List.eq_append_cons_of_mem hcolon
    rw [List.length_append, List.length_cons] at hsize
    have hindex : QString.indexOf (l ++ colon :: r) colon = Int64.ofNat l.length := by
      rw [QString.indexOf, idxOf?_colon hl]
    have hat : (Int64.ofNat l.length).toNatClampNeg = l.length :=
      Int64.toNatClampNeg_ofNat_of_lt (by omega)
    have hafter : (Int64.ofNat l.length + 1).toNatClampNeg = l.length + 1 := by
      have hone : (1 : Int64) = Int64.ofNat 1 := rfl
      rw [hone, ← Int64.ofNat_add]
      exact Int64.toNatClampNeg_ofNat_of_lt (by omega)
    have hfound : Int64.ofNat l.length ≠ -1 := by
      intro hnone
      rw [hnone] at hafter
      exact nomatch hafter
    rw [splitAuthority_append_colon _ _ hl, splitTarget, hindex, if_pos hfound, QString.slicedTo,
      QString.sliced, QString.sliced, hat, hafter]
    simp
  · have hindex : QString.indexOf authority colon = -1 := by
      rw [QString.indexOf, List.idxOf?_eq_none_iff.2 hcolon]
    rw [splitAuthority_of_not_mem _ hcolon, splitTarget, hindex]
    rfl

/-! ### What is contacted -/

/-- A host as an authority names it: a registered name or an address without colons, or an IPv6
literal in brackets. -/
inductive Host
  | name (text : QString) (colonless : colon ∉ text)
  | literal (address : QString) (colons : colon ∈ address)

namespace Host

/-- The brackets around a literal. -/
def bracketed (address : QString) : QString :=
  QChar.ofChar '[' :: address ++ [QChar.ofChar ']']

/-- The text of a host. -/
def render : Host → QString
  | name text _ => text
  | literal address _ => bracketed address

/-- A text is what the host is called: a literal with or without its brackets. -/
def Called : Host → QString → Prop
  | name text _, host => host = text
  | literal address _, host => host = address ∨ host = bracketed address

/-- The host is a name, and no address in brackets. -/
def isName : Host → Bool
  | name _ _ => true
  | literal _ _ => false

end Host

/-- `host` or `host:port`, where the port is a possibly empty string of digits. -/
structure Authority where
  host : Host
  port : Option QString
  digits : ∀ p ∈ port, p.all QChar.isDigit

namespace Authority

/-- The text of an authority. -/
def render (a : Authority) : QString :=
  match a.port with
  | none => a.host.render
  | some p => a.host.render ++ colon :: p

/-- The port, or the default if it is absent or empty. -/
def portOr (a : Authority) (defaultPort : QString) : QString :=
  match a.port with
  | none | some [] => defaultPort
  | some p => p

end Authority

/-- **The endpoint contacted is the one named** by an authority, in the `Host` header as in the
target of `CONNECT`. -/
structure ContactsNamed (a : Authority) : Prop where
  request : ∀ m rest,
    m.tx.request.headers.findByName (QString.ofString "Host") = a.render :: rest →
      ∃ host, a.host.Called host ∧
        openRemoteConnection m =
          .ok (tryOpen host (a.portOr (QString.ofString "80")) .request m)
  tunnel : ∀ m, m.tx.request.uri = a.render →
    ∃ host, a.host.Called host ∧
      establishTlsTunnel m = .ok (tryOpen host (a.portOr (QString.ofString "443")) .tunnel m)
  /-- Both functions split the authority the same way. -/
  alike : ∀ defaultPort, splitHostValue a.render defaultPort = splitTarget a.render defaultPort

theorem openRemoteConnection_eq
    (hhost : m.tx.request.headers.findByName (QString.ofString "Host") = authority :: rest) :
    openRemoteConnection m = .ok (tryOpen (splitAuthority authority (QString.ofString "80")).1
      (splitAuthority authority (QString.ofString "80")).2 .request m) := by
  rw [openRemoteConnection, hhost]

theorem tryOpen_inj {callback : OpenCallback} {host' port' : QString}
    (h : tryOpen host port callback m = tryOpen host' port' callback m) :
    host = host' ∧ port = port' := by
  have htrace := congrArg Machine.trace h
  have hevents := List.append_cancel_left htrace
  exact Event.tryOpen.inj (List.singleton_inj.1 hevents)

/-- The endpoint of an authority, split: what is called that is contacted. -/
def EndpointNamed (a : Authority) (defaultPort : QString) : Prop :=
  a.host.Called (splitAuthority a.render defaultPort).1 ∧
    (splitAuthority a.render defaultPort).2 = a.portOr defaultPort

/-- The target of `CONNECT` can be any text. -/
theorem ContactsNamed.endpointNamed {a : Authority} (h : ContactsNamed a) :
    EndpointNamed a (QString.ofString "443") := by
  obtain ⟨host, hcalled, heq⟩ := h.tunnel { tx := { request := { uri := a.render } } } rfl
  obtain ⟨hhost, hport⟩ := tryOpen_inj (Except.ok.inj heq)
  exact ⟨hhost ▸ hcalled, hport⟩

theorem contactsNamed_of_endpointNamed {a : Authority}
    (h : ∀ defaultPort, EndpointNamed a defaultPort) : ContactsNamed a where
  request m rest hhost := by
    obtain ⟨hcalled, hport⟩ := h (QString.ofString "80")
    exact ⟨_, hcalled, by rw [openRemoteConnection_eq hhost, hport]⟩
  tunnel m huri := by
    obtain ⟨hcalled, hport⟩ := h (QString.ofString "443")
    exact ⟨_, hcalled, by rw [establishTlsTunnel, huri, ← hport]⟩
  alike := splitHostValue_eq a.render

/-- A name without a port, or with one that is not empty. -/
theorem endpointNamed_of_name {a : Authority} (hname : a.host.isName = true)
    (hport : a.port ≠ some []) (defaultPort : QString) : EndpointNamed a defaultPort := by
  obtain ⟨host, port, _⟩ := a
  cases host with
  | literal => exact nomatch hname
  | name text hcolon =>
    cases port with
    | none =>
      have hsplit := splitAuthority_of_not_mem defaultPort hcolon
      exact ⟨congrArg Prod.fst hsplit, congrArg Prod.snd hsplit⟩
    | some p =>
      have hsplit := splitAuthority_append_colon p defaultPort hcolon
      refine ⟨congrArg Prod.fst hsplit, (congrArg Prod.snd hsplit).trans ?_⟩
      cases p with
      | nil => exact absurd rfl hport
      | cons => rfl

/-- A literal is cut in two. -/
theorem not_endpointNamed_of_literal {a : Authority} (hname : a.host.isName = false)
    (defaultPort : QString) : ¬ EndpointNamed a defaultPort := by
  obtain ⟨host, port, _⟩ := a
  cases host with
  | name => exact nomatch hname
  | literal address hcolon =>
    obtain ⟨l, r, rfl, hl⟩ := List.eq_append_cons_of_mem hcolon
    have hbracket : colon ∉ QChar.ofChar '[' :: l :=
      List.not_mem_cons_of_ne_of_not_mem (by decide) hl
    -- what is contacted ends before the first colon of the address
    have hcut : ∃ r', Authority.render ⟨.literal _ hcolon, port, ‹_›⟩ =
        (QChar.ofChar '[' :: l) ++ colon :: r' := by
      cases port with
      | none =>
        refine ⟨r ++ [QChar.ofChar ']'], ?_⟩
        simp [Authority.render, Host.render, Host.bracketed]
      | some p =>
        refine ⟨r ++ QChar.ofChar ']' :: colon :: p, ?_⟩
        simp [Authority.render, Host.render, Host.bracketed]
    obtain ⟨r', hcut⟩ := hcut
    rintro ⟨hcalled, -⟩
    rw [hcut, splitAuthority_append_colon _ _ hbracket] at hcalled
    refine hbracket ?_
    rcases hcalled with heq | heq
    · have hbare : QChar.ofChar '[' :: l = l ++ colon :: r := heq
      rw [hbare]
      exact hcolon
    · have hwhole : QChar.ofChar '[' :: l = Host.bracketed (l ++ colon :: r) := heq
      rw [hwhole]
      simp [Host.bracketed]

/-- An empty port is passed on. -/
theorem not_endpointNamed_of_empty {a : Authority} (hname : a.host.isName = true)
    (hport : a.port = some []) {defaultPort : QString} (hdefault : defaultPort ≠ []) :
    ¬ EndpointNamed a defaultPort := by
  obtain ⟨host, port, _⟩ := a
  obtain rfl : port = some [] := hport
  cases host with
  | literal => exact nomatch hname
  | name text hcolon =>
    rintro ⟨-, heq⟩
    have hsplit := splitAuthority_append_colon [] defaultPort hcolon
    exact hdefault (heq.symm.trans (congrArg Prod.snd hsplit))

/-- **The endpoint contacted is the one named** exactly if the host is no IPv6 literal and the port
is not there and empty. -/
theorem contactsNamed_iff (a : Authority) :
    ContactsNamed a ↔ a.host.isName = true ∧ a.port ≠ some [] := by
  constructor
  · intro h
    cases hname : a.host.isName with
    | false => exact absurd h.endpointNamed (not_endpointNamed_of_literal hname _)
    | true =>
      refine ⟨rfl, fun hport ↦ ?_⟩
      exact not_endpointNamed_of_empty hname hport (by decide) h.endpointNamed
  · rintro ⟨hname, hport⟩
    exact contactsNamed_of_endpointNamed (endpointNamed_of_name hname hport)

/-- The loopback address, at port 8080. -/
def loopback : Authority where
  host := .literal (QString.ofString "::1") (by decide)
  port := some (QString.ofString "8080")
  digits := by decide

/-- `[::1]:8080` is taken for the host `[` and the port `:1]:8080`. -/
theorem loopback_not_contacted : ¬ ContactsNamed loopback ∧
    splitAuthority loopback.render (QString.ofString "80") =
      (QString.ofString "[", QString.ofString ":1]:8080") :=
  ⟨fun h ↦ not_endpointNamed_of_literal rfl _ h.endpointNamed, by decide⟩

end Transaction

end Amanuensis
