import Amanuensis.Trusty.XpcServer

/-!
# Signatures

The requirement on a peer's code signature is checked in a different place on each release of macOS:
by the system, once it has been installed on the connection (macOS 12); for every message
(macOS 11); or when the connection arrives. Each half of the check passes where the other one is
made, so that nobody unsigned is served only if one of them is.

On macOS 12 the result of the installation is read the wrong way round. A run keeps to the
requirement there exactly if no installation succeeds and no valid `Hello` is received
(`peersChecked_iff`), so that nobody is served at all.
-/

open LabelledSystem

namespace Amanuensis

namespace Trusty

/-- A connection is served: a message of it is handed to its service, or accepted as a `Hello`. -/
def Event.Serves (c : ℕ) (e : Event) : Prop :=
  e = .dispatched c ∨ ∃ auth, e = .accepted c auth

namespace XpcServer

variable {os : MacOS} {s s' s₁ : XpcServer} {c : ℕ} {l : Label} {events : List Event}

/-- The requirement was installed on a connection before it was activated. -/
def Installed (c : ℕ) (trace : List Event) : Prop :=
  ∃ before after, trace = before ++ .activated c :: after ∧ .requirementSet c ∈ before

/-- The requirement is in force for a connection, in a move that handles a message of it: it was
installed, or the connection was validated, or the message is validated first. -/
def InForce (c : ℕ) (t : Move XpcServer Label) : Prop :=
  Installed c t.source.trace ∨ .connectionValidated c ∈ t.source.trace ∨
    (recorded t).head? = some (.messageValidated c)

/-- No unsigned peer is served. -/
def ServesSigned (t : Move XpcServer Label) : Prop :=
  ∀ c, ∀ e ∈ recorded t, e.Serves c → InForce c t

/-- No connection is dropped on which the requirement was installed. -/
def KeepsSigned (t : Move XpcServer Label) : Prop :=
  ∀ c, .requirementSet c ∈ recorded t → .dropped c ∉ recorded t

/-- **Peers are checked** in a move. -/
def PeersChecked (t : Move XpcServer Label) : Prop :=
  ServesSigned t ∧ KeepsSigned t

/-- The requirement is installed, or a valid `Hello` is received: what macOS 12 gets wrong. -/
def Label.Inverted : Label → Prop
  | .arrive setRequirement _ => setRequirement = 0
  | .message _ (.message object) calls => ValidHello object calls
  | _ => False

/-! ### What is recorded when -/

/-- On macOS 11 a message that is received has been validated. -/
theorem Received.events_eq {object : XpcObject} {calls : Calls} {m : Message} {id : UInt64}
    (hm : Received os s c object calls m id) (hos : os = .macOS11) :
    (isMessageSignatureValid os c calls.validation).1 = [.messageValidated c] := by
  subst hos
  have hvalid := hm.valid
  rw [isMessageSignatureValid] at hvalid ⊢
  rw [events_of_validate (by decide), if_pos hvalid]

/-- What a message records: it may be validated, who sent it may be cancelled, served or replied to,
and a right and a call are recorded for it. -/
theorem eq_of_mem_message {event : XpcEvent} {calls : Calls}
    (h : Does os s (.message c event calls) events s₁) {e : Event} (he : e ∈ events) :
    os = .macOS11 ∧ e = .messageValidated c ∨ e = .cancelled c ∨ e.Serves c ∨
      (∃ auth right, e = .granted auth right) ∨ (∃ operation, e = .invoked c operation) ∨
      ∃ reply, e = sendReply c calls reply := by
  cases h with
  | answered _ _ _ _ hevents =>
    obtain hvalid | hcancelled | hreplied := hevents e he
    · exact .inl (eq_of_mem_isMessageSignatureValid hvalid)
    · exact .inr (.inl hcancelled)
    · exact .inr (.inr (.inr (.inr (.inr hreplied))))
  | dispatched _ object _ m id hm svc _ reply =>
    obtain hvalid | rfl | hcalled | rfl := by simpa [or_assoc, -eq_sendReply_iff] using he
    · exact .inl (eq_of_mem_isMessageSignatureValid hvalid)
    · exact .inr (.inr (.inl (.inl rfl)))
    · obtain ⟨operation, rfl | rfl⟩ := eq_of_mem_handleOne hcalled
      · exact .inr (.inr (.inr (.inl ⟨_, _, rfl⟩)))
      · exact .inr (.inr (.inr (.inr (.inl ⟨_, rfl⟩))))
    · exact .inr (.inr (.inr (.inr (.inr ⟨_, rfl⟩))))
  | accepted _ object _ m id hm _ _ svc _ reply =>
    obtain hvalid | rfl | rfl := by simpa [or_assoc, -eq_sendReply_iff] using he
    · exact .inl (eq_of_mem_isMessageSignatureValid hvalid)
    · exact .inr (.inr (.inl (.inr ⟨_, rfl⟩)))
    · exact .inr (.inr (.inr (.inr (.inr ⟨_, rfl⟩))))

/-- The requirement is installed when a connection arrives, on macOS 12. -/
theorem requirementSet_of_does (h : Does os s l events s₁) (he : .requirementSet c ∈ events) :
    os = .macOS12 ∧ (∃ v, l = .arrive 0 v) ∧ c = s.arrived := by
  cases l with
  | arrive r v =>
    obtain ⟨hos, rfl, hc⟩ : os = .macOS12 ∧ r = 0 ∧ c = s.arrived := by
      simpa using eq_of_mem_arrive h he
    exact ⟨hos, ⟨v, rfl⟩, hc⟩
  | finalise c' =>
    cases h
    exact nomatch he
  | message c' event calls => simpa [Event.Serves] using eq_of_mem_message h he

/-- A connection is validated when it arrives, before macOS 11. -/
theorem connectionValidated_of_does (h : Does os s l events s₁)
    (he : .connectionValidated c ∈ events) : os = .earlier := by
  cases l with
  | arrive r v =>
    obtain ⟨hos, -⟩ : os = .earlier ∧ c = s.arrived := by simpa using eq_of_mem_arrive h he
    exact hos
  | finalise c' =>
    cases h
    exact nomatch he
  | message c' event calls => simpa [Event.Serves] using eq_of_mem_message h he

/-- Who is served has sent a message that is received, and has a service or sends a valid
`Hello`. The message is validated first, on macOS 11. -/
theorem received_of_serves (h : Does os s l events s₁) {e : Event} (he : e ∈ events)
    (hserves : e.Serves c) :
    (∃ object calls m id, l = .message c (.message object) calls ∧
      Received os s c object calls m id ∧ (s.connections id ≠ none ∨ ValidHello object calls)) ∧
      (os = .macOS11 → events.head? = some (.messageValidated c)) := by
  cases l with
  | arrive r v =>
    obtain ⟨_, _, rfl⟩ | ⟨_, rfl⟩ | rfl | rfl := eq_of_mem_arrive h he
    all_goals simp [Event.Serves] at hserves
  | finalise c' =>
    cases h
    exact nomatch he
  | message c' event calls =>
    -- what is served is served for the connection that sends the message
    obtain rfl : c = c' := by
      obtain rfl | ⟨auth, rfl⟩ := hserves
      all_goals simpa [Event.Serves] using eq_of_mem_message h he
    cases h with
    | answered _ _ _ _ hevents =>
      obtain hvalid | rfl | ⟨reply, hreply⟩ := hevents e he
      · obtain rfl := (eq_of_mem_isMessageSignatureValid hvalid).2
        simp [Event.Serves] at hserves
      · simp [Event.Serves] at hserves
      · obtain rfl | ⟨auth, rfl⟩ := hserves
        · simp at hreply
        · simp at hreply
    | dispatched _ object _ m id hm svc hsvc reply =>
      refine ⟨⟨object, calls, m, id, rfl, hm, .inl (by simp [hsvc])⟩, fun hos ↦ ?_⟩
      rw [hm.events_eq hos]
      rfl
    | accepted _ object _ m id hm hnone htype svc hcreate reply =>
      have hvalid := AuthorizedService.create_eq_ok_iff.1 hcreate
      refine ⟨⟨object, calls, m, id, rfl, hm, .inr ⟨m, hm.unwrap, htype, hvalid.1⟩⟩, fun hos ↦ ?_⟩
      rw [hm.events_eq hos]
      rfl

/-! ### Invariants -/

/-- Before macOS 11, a connection with a context has been validated. -/
theorem connectionValidated_of_run {h : List (Move XpcServer Label)}
    (hrun : (system .earlier).Run h s) (c : ℕ) :
    s.contexts c ≠ none → .connectionValidated c ∈ s.trace := by
  refine hrun.invariant (I := fun s ↦ s.contexts c ≠ none → .connectionValidated c ∈ s.trace)
    (fun s hs hc ↦ ?_) (fun s l s' ih hstep hc ↦ ?_)
  · obtain rfl : s = {} := hs
    exact absurd rfl hc
  · obtain ⟨events, s₁, hdoes, rfl, -⟩ := does_of_step hstep
    show _ ∈ s₁.trace ++ events
    rw [hdoes.trace_eq]
    obtain hc | ⟨-, -, r, v, hv, rfl⟩ := hdoes.context_ne_none hc
    · exact List.mem_append_left _ (ih hc)
    · rw [isClientSignatureValid] at hv ⊢
      rw [events_of_validate (by decide), if_pos hv]
      simp

/-- What holds on macOS 12: a connection on which the requirement is installed has no context, and
nothing else is checked. -/
structure Unchecked (s : XpcServer) : Prop where
  requirementSet (c : ℕ) : .requirementSet c ∈ s.trace → c < s.arrived ∧ s.contexts c = none
  connectionValidated (c : ℕ) : .connectionValidated c ∉ s.trace

theorem unchecked_of_run {h : List (Move XpcServer Label)} (hrun : (system .macOS12).Run h s) :
    Unchecked s := by
  induction hrun with
  | start hs =>
    obtain rfl := hs
    exact ⟨nofun, nofun⟩
  | move hrun hstep ih =>
    obtain ⟨events, s₁, hdoes, rfl, -⟩ := does_of_step hstep
    refine ⟨fun c hc ↦ ?_, fun c hc ↦ ?_⟩
    · replace hc : .requirementSet c ∈ s₁.trace ++ events := hc
      rw [hdoes.trace_eq] at hc
      show c < s₁.arrived ∧ s₁.contexts c = none
      obtain hc | hc := List.mem_append.1 hc
      · obtain ⟨hlt, hnone⟩ := ih.requirementSet c hc
        refine ⟨hlt.trans_le hdoes.arrived_le, not_not.1 fun hne ↦ ?_⟩
        obtain hsource | ⟨rfl, -⟩ := hdoes.context_ne_none hne
        · exact hsource hnone
        · exact hlt.ne rfl
      · -- the requirement is being installed, so that the connection is dropped
        obtain ⟨-, ⟨v, rfl⟩, rfl⟩ := requirementSet_of_does hdoes hc
        cases hdoes with
        | dropped =>
          exact ⟨Nat.lt_succ_self _, not_not.1 fun hne ↦ (lt_arrived_of_run hrun _ hne).ne rfl⟩
        | activated _ _ hv => exact absurd hv (by simp [isClientSignatureValid])
    · replace hc : .connectionValidated c ∈ s₁.trace ++ events := hc
      rw [hdoes.trace_eq] at hc
      obtain hc | hc := List.mem_append.1 hc
      · exact ih.connectionValidated c hc
      · exact absurd (connectionValidated_of_does hdoes hc) (by decide)

/-- A service comes from a valid `Hello`. -/
theorem Does.connection_ne_none {id : UInt64} (h : Does os s l events s₁)
    (hid : s₁.connections id ≠ none) : s.connections id ≠ none ∨ l.Inverted := by
  cases h with
  | dropped | activated | answered | dispatched => exact .inl hid
  | finalised c' id' hc' =>
    obtain rfl | hne := eq_or_ne id id'
    · exact absurd (Function.update_self _ _ _) hid
    · exact .inl (by simpa [hne] using hid)
  | accepted c' object calls m id' hm hnone htype svc hcreate =>
    exact .inr ⟨m, hm.unwrap, htype, (AuthorizedService.create_eq_ok_iff.1 hcreate).1⟩

/-- Without a valid `Hello` no connection has a service. -/
theorem connection_eq_none_of_run {h : List (Move XpcServer Label)} (hrun : (system os).Run h s)
    (hh : ∀ t ∈ h, ¬ t.label.Inverted) (id : UInt64) : s.connections id = none := by
  refine hrun.history_induction (P := fun t ↦ ¬ t.label.Inverted)
    (I := fun _ s ↦ s.connections id = none) (fun s hs ↦ ?_) (fun h s l s' _ ih hstep hl ↦ ?_) hh
  · obtain rfl : s = {} := hs
    rfl
  · obtain ⟨events, s₁, hdoes, rfl, -⟩ := does_of_step hstep
    exact not_not.1 fun hne ↦ (hdoes.connection_ne_none hne).elim (absurd ih) hl

/-! ### Runs -/

theorem not_inForce (hs : Unchecked s) (hc : s.contexts c ≠ none)
    (hhead : (recorded ⟨s, l, s'⟩).head? ≠ some (.messageValidated c)) :
    ¬ InForce c ⟨s, l, s'⟩ := by
  rintro (⟨before, after, htrace, hset⟩ | hvalidated | hmessage)
  · exact hc (hs.requirementSet c (htrace ▸ List.mem_append_left _ hset)).2
  · exact hs.connectionValidated c hvalidated
  · exact hhead hmessage

/-- A connection is dropped on macOS 12 if the requirement is installed on it. -/
theorem not_keepsSigned {v : Validation} (hstep : (system .macOS12).step s (.arrive 0 v) s') :
    ¬ KeepsSigned ⟨s, .arrive 0 v, s'⟩ := by
  obtain ⟨events, s₁, hdoes, rfl, hrecorded⟩ := does_of_step hstep
  intro hkeeps
  rw [KeepsSigned, hrecorded] at hkeeps
  cases hdoes with
  | dropped => exact hkeeps s.arrived (by simp [isClientSignatureValid]) (by simp)
  | activated _ _ hv => exact absurd hv (by simp [isClientSignatureValid])

/-- Whoever sends a valid `Hello` on macOS 12 is served, and is not checked. -/
theorem not_servesSigned {object : XpcObject} {calls : Calls} (hs : Unchecked s)
    (hstep : (system .macOS12).step s (.message c (.message object) calls) s')
    (hhello : ValidHello object calls) :
    ¬ ServesSigned ⟨s, .message c (.message object) calls, s'⟩ := by
  have hc : s.contexts c ≠ none := hstep.1 c rfl
  obtain ⟨events, s₁, hdoes, rfl, hrecorded⟩ := does_of_step hstep
  intro hserves
  rw [ServesSigned, hrecorded] at hserves
  cases hdoes with
  | answered _ _ _ _ hevents hnone =>
    -- a valid `Hello` is not merely answered
    obtain ⟨m, hunwrap, htype, hvalid⟩ := hhello
    obtain ⟨id, hid⟩ := Option.ne_none_iff_exists'.1 hc
    obtain ⟨what, hcreate⟩ := (hnone object m id rfl ⟨rfl, hunwrap, hid⟩).2 htype
    exact nomatch hcreate.symm.trans (AuthorizedService.create_eq_ok_iff.2 ⟨hvalid, rfl⟩)
  | dispatched =>
    refine not_inForce hs hc ?_ (hserves c (.dispatched c) (by simp) (.inl rfl))
    rw [hrecorded]
    simp
  | accepted _ _ _ m id hm hnone htype svc =>
    refine not_inForce hs hc ?_ (hserves c (.accepted c svc.auth) (by simp) (.inr ⟨_, rfl⟩))
    rw [hrecorded]
    simp

theorem not_peersChecked_of_inverted (hs : Unchecked s) (hstep : (system .macOS12).step s l s')
    (hl : l.Inverted) : ¬ PeersChecked ⟨s, l, s'⟩ := by
  cases l with
  | arrive r v =>
    obtain rfl : r = 0 := hl
    exact fun h ↦ not_keepsSigned hstep h.2
  | finalise => exact absurd hl id
  | message c event calls =>
    cases event with
    | peerCodeSigningRequirement | error => exact absurd hl id
    | message object => exact fun h ↦ not_servesSigned hs hstep hl h.1

/-- Nobody is served without a valid `Hello`. -/
theorem peersChecked_of_not_inverted (hid : ∀ id, s.connections id = none)
    (hstep : (system os).step s l s') (hl : ¬ l.Inverted) : PeersChecked ⟨s, l, s'⟩ := by
  obtain ⟨events, s₁, hdoes, rfl, hrecorded⟩ := does_of_step hstep
  constructor
  · intro c e he hserves
    rw [hrecorded] at he
    obtain ⟨⟨object, calls, m, id, rfl, hm, hsvc | hhello⟩, -⟩ :=
      received_of_serves hdoes he hserves
    · exact absurd (hid id) hsvc
    · exact absurd hhello hl
  · intro c hset
    rw [hrecorded] at hset
    obtain ⟨-, ⟨v, rfl⟩, -⟩ := requirementSet_of_does hdoes hset
    exact absurd rfl hl

/-- Before macOS 12 the connection or the message is validated. -/
theorem peersChecked_of_ne {h : List (Move XpcServer Label)} (hrun : (system os).Run h s)
    (hos : os ≠ .macOS12) (hstep : (system os).step s l s') : PeersChecked ⟨s, l, s'⟩ := by
  obtain ⟨events, s₁, hdoes, rfl, hrecorded⟩ := does_of_step hstep
  constructor
  · intro c e he hserves
    rw [hrecorded] at he
    obtain ⟨⟨object, calls, m, id, rfl, hm, -⟩, hhead⟩ := received_of_serves hdoes he hserves
    cases os with
    | earlier => exact .inr (.inl (connectionValidated_of_run hrun c (hstep.1 c rfl)))
    | macOS11 => exact .inr (.inr (by rw [hrecorded, hhead rfl]))
    | macOS12 => exact absurd rfl hos
  · intro c hset
    rw [hrecorded] at hset
    exact absurd (requirementSet_of_does hdoes hset).1 hos

/-- **Peers are checked** in a run before macOS 12; and on macOS 12 exactly if the requirement is
never installed and no valid `Hello` is received. -/
theorem peersChecked_iff {h : List (Move XpcServer Label)} (hrun : (system os).Run h s) :
    (∀ t ∈ h, PeersChecked t) ↔ (os = .macOS12 → ∀ t ∈ h, ¬ t.label.Inverted) := by
  constructor
  · rintro hchecked rfl t ht hl
    obtain ⟨h₁, -, hsource, hstep⟩ := hrun.exists_of_mem ht
    exact not_peersChecked_of_inverted (unchecked_of_run hsource) hstep hl (hchecked t ht)
  · intro hinverted t ht
    obtain ⟨h₁, hsub, hsource, hstep⟩ := hrun.exists_of_mem ht
    obtain hos | hos := ne_or_eq os .macOS12
    · exact peersChecked_of_ne hsource hos hstep
    · have hh := hinverted hos
      have hh₁ : ∀ t ∈ h₁, ¬ t.label.Inverted := fun t ht ↦ hh t (hsub ht)
      exact peersChecked_of_not_inverted (connection_eq_none_of_run hsource hh₁) hstep (hh t ht)

/-- On macOS 11 a `Hello` is accepted from a peer whose message has been validated. -/
theorem validatedHello_peersChecked :
    ∃ h s, (system .macOS11).Run h s ∧ s.authorizations = 1 ∧ ∀ t ∈ h, PeersChecked t := by
  have harrival := (Run.start (S := system .macOS11) rfl).move (l := .arrive 0 {}) ⟨nofun, rfl⟩
  have hhello := harrival.move (l := .message 0 (.message exampleHello) {})
    ⟨fun c hc ↦ Option.some.inj hc ▸ Option.some_ne_none _, rfl⟩
  exact ⟨_, _, hhello, rfl, (peersChecked_iff hhello).2 nofun⟩

/-- On macOS 12 a connection is dropped if the requirement is installed on it. If that fails, it is
activated, and its `Hello` is accepted. -/
theorem failedRequirement_not_peersChecked :
    ∃ h s, (system .macOS12).Run h s ∧ (∃ t ∈ h, ¬ KeepsSigned t) ∧ ∃ t ∈ h, ¬ ServesSigned t := by
  have hdropped := (Run.start (S := system .macOS12) rfl).move (l := .arrive 0 {}) ⟨nofun, rfl⟩
  have hactivated := hdropped.move (l := .arrive 1 {}) ⟨nofun, rfl⟩
  have hhello := hactivated.move (l := .message 1 (.message exampleHello) {})
    ⟨fun c hc ↦ Option.some.inj hc ▸ Option.some_ne_none _, rfl⟩
  refine ⟨_, _, hhello, ⟨_, List.mem_cons_self, ?_⟩, ⟨_, List.mem_concat_self, ?_⟩⟩
  · exact not_keepsSigned (hdropped.of_append rfl).2
  · exact not_servesSigned (unchecked_of_run hactivated) (hhello.of_append rfl).2 exampleHello_valid

end XpcServer

end Trusty

end Amanuensis
