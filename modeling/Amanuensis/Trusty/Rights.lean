import Mathlib.Tactic.NormNum
import Amanuensis.Trusty.XpcServer

/-!
# Rights

A connection may have the service called for it after a `Hello`, and only with the right that is
named for the operation. The services are kept by the id in a connection's context, so that this
rests on the ids: as long as no two connections that are alive have the same one
(`rightsRespected_of_run`), each service belongs to the connection whose `Hello` created it. Ids
have 64 bits and are handed out in turn. The first one to be handed out again, after 2⁶⁴
connections, gives a new connection the service of an old one (`wrappedId_not_rightsRespected`).
-/

open LabelledSystem

namespace Amanuensis

namespace Trusty

namespace XpcServer

variable {os : MacOS} {s s' s₁ : XpcServer} {c : ℕ} {l : Label} {events : List Event}
  {h : List (Move XpcServer Label)}

/-- A valid `Hello` of a connection is accepted, with the authorization created from it. -/
def IsHello (c auth : ℕ) (t : Move XpcServer Label) : Prop :=
  ∃ object calls, t.label = .message c (.message object) calls ∧ ValidHello object calls ∧
    .accepted c auth ∈ recorded t

/-- A connection has sent a `Hello`, and has not been finalised since. -/
def Authenticated (c auth : ℕ) (h : List (Move XpcServer Label)) : Prop :=
  ∃ h₁ t h₂, h = h₁ ++ t :: h₂ ∧ IsHello c auth t ∧ ∀ u ∈ h₂, u.label ≠ .finalise c

/-- **Rights are respected** in a run that leads to a state. -/
structure RightsRespected (h : List (Move XpcServer Label)) (s : XpcServer) : Prop where
  /-- The service is called for a message of a connection that has sent a `Hello`, after the right
  that is named for the operation has been granted to the authorization from that `Hello`. -/
  invoked : ∀ h₁ t h₂, h = h₁ ++ t :: h₂ → ∀ c operation before after,
    recorded t = before ++ .invoked c operation :: after →
      (∃ event calls, t.label = .message c event calls) ∧
      ∃ auth, Authenticated c auth h₁ ∧ .granted auth operation.rightName ∈ before
  /-- No two connections have sent a `Hello` that the same authorization was created from. -/
  createdOnce : ∀ c c' auth, .accepted c auth ∈ s.trace → .accepted c' auth ∈ s.trace → c = c'
  /-- No two connections share an authorization. -/
  notShared : ∀ c c' id id' svc svc', s.contexts c = some id → s.contexts c' = some id' →
    s.connections id = some svc → s.connections id' = some svc' → svc.auth = svc'.auth → c = c'
  /-- No message replaces a service. -/
  notReplaced : ∀ t ∈ h, ∀ c event calls, t.label = .message c event calls → ∀ id svc,
    t.source.connections id = some svc → t.target.connections id = some svc

/-- No two connections that are alive have the same id. -/
def DistinctIds (s : XpcServer) : Prop :=
  ∀ c c' id, s.contexts c = some id → s.contexts c' = some id → c = c'

/-! ### Services belong to connections -/

theorem Authenticated.concat {auth : ℕ} {t : Move XpcServer Label} (ha : Authenticated c auth h)
    (ht : t.label ≠ .finalise c) : Authenticated c auth (h ++ [t]) := by
  obtain ⟨h₁, u, h₂, rfl, hhello, hlive⟩ := ha
  refine ⟨h₁, u, h₂ ++ [t], by simp, hhello, fun w hw ↦ ?_⟩
  obtain hw | hw := List.mem_append.1 hw
  · exact hlive w hw
  · exact List.mem_singleton.1 hw ▸ ht

/-- A service belongs to a connection that is alive, and that has sent the `Hello` its authorization
was created from. -/
structure Owned (h : List (Move XpcServer Label)) (s : XpcServer) : Prop where
  distinct : DistinctIds s
  exists_context (id : UInt64) : s.connections id ≠ none → ∃ c, s.contexts c = some id
  authenticated (c : ℕ) (id : UInt64) (svc : AuthorizedService) : s.contexts c = some id →
    s.connections id = some svc → Authenticated c svc.auth h

/-- A service of a connection that is alive has been its own, or comes from its `Hello`. -/
theorem Does.connection_eq_some (hdoes : Does os s l events s₁)
    (hs : ∀ c, s.contexts c ≠ none → c < s.arrived) (howned : Owned h s) (hs₁ : DistinctIds s₁)
    {id : UInt64} {svc : AuthorizedService} (hc : s₁.contexts c = some id)
    (hsvc : s₁.connections id = some svc) :
    (s.contexts c = some id ∧ s.connections id = some svc ∧ l ≠ .finalise c) ∨
      ∃ object calls, l = .message c (.message object) calls ∧ ValidHello object calls ∧
        .accepted c svc.auth ∈ events := by
  cases hdoes with
  | dropped | answered | dispatched => exact .inl ⟨hc, hsvc, nofun⟩
  | activated r v hv =>
    obtain rfl | hne := eq_or_ne c s.arrived
    · -- the new connection would have the id of the one that the service belongs to
      have hid : s.nextId = id := by simpa using hc
      obtain ⟨c', hc'⟩ := howned.exists_context id (Option.ne_none_iff_exists'.2 ⟨svc, hsvc⟩)
      have hlt : c' < s.arrived := hs c' (by simp [hc'])
      have hcontext : (Function.update s.contexts s.arrived (some s.nextId)) c' = some id := by
        rw [Function.update_of_ne hlt.ne, hc']
      exact absurd (hs₁ _ _ _ hcontext hc) hlt.ne
    · exact .inl ⟨by simpa [hne] using hc, hsvc, nofun⟩
  | finalised c' id' hc' =>
    -- the service of the connection that is finalised goes with it
    have hcc' : c ≠ c' := by
      rintro rfl
      simp at hc
    have hid : id ≠ id' := by
      rintro rfl
      simp at hsvc
    refine .inl ⟨by simpa [hcc'] using hc, by simpa [hid] using hsvc, ?_⟩
    exact fun heq ↦ hcc' (Label.finalise.inj heq).symm
  | accepted c' object calls m id' hm hnone htype svc' hcreate =>
    obtain rfl | hid := eq_or_ne id id'
    · obtain rfl := howned.distinct _ _ _ hc hm.context
      obtain rfl : svc' = svc := by simpa using hsvc
      exact .inr ⟨object, calls, rfl, ⟨m, hm.unwrap, htype,
        (AuthorizedService.create_eq_ok_iff.1 hcreate).1⟩, by simp⟩
    · exact .inl ⟨hc, by simpa [hid] using hsvc, nofun⟩

/-- The connection that a service belongs to is alive as long as the service is kept. -/
theorem Does.exists_context (hdoes : Does os s l events s₁)
    (hs : ∀ c, s.contexts c ≠ none → c < s.arrived) (howned : Owned h s) {id : UInt64}
    (hid : s₁.connections id ≠ none) : ∃ c, s₁.contexts c = some id := by
  cases hdoes with
  | dropped | answered | dispatched => exact howned.exists_context id hid
  | activated r v hv =>
    obtain ⟨c, hc⟩ := howned.exists_context id hid
    have hlt : c < s.arrived := hs c (by simp [hc])
    exact ⟨c, by rw [← hc]; exact Function.update_of_ne hlt.ne _ _⟩
  | finalised c' id' hc' =>
    have hne : id ≠ id' := by
      rintro rfl
      simp at hid
    obtain ⟨c, hc⟩ := howned.exists_context id (by simpa [hne] using hid)
    have hcc' : c ≠ c' := by
      rintro rfl
      exact hne (Option.some.inj (hc.symm.trans hc'))
    exact ⟨c, by rw [← hc]; exact Function.update_of_ne hcc' _ _⟩
  | accepted c' object calls m id' hm =>
    obtain rfl | hne := eq_or_ne id id'
    · exact ⟨c', hm.context⟩
    · exact howned.exists_context id (by simpa [hne] using hid)

theorem owned_of_run (hrun : (system os).Run h s) (hids : ∀ t ∈ h, DistinctIds t.target) :
    Owned h s := by
  refine hrun.history_induction (P := fun t ↦ DistinctIds t.target) (I := Owned)
    (fun s hs ↦ ?_) (fun h s l s' hrun ih hstep hs' ↦ ?_) hids
  · obtain rfl : s = {} := hs
    exact ⟨nofun, fun id hid ↦ absurd rfl hid, nofun⟩
  · have hlt := lt_arrived_of_run hrun
    obtain ⟨events, s₁, hdoes, rfl, hrecorded⟩ := does_of_step hstep
    refine ⟨hs', fun id hid ↦ hdoes.exists_context hlt ih hid, fun c id svc hc hsvc ↦ ?_⟩
    obtain ⟨hc, hsvc, hl⟩ | ⟨object, calls, rfl, hhello, haccepted⟩ :=
      hdoes.connection_eq_some hlt ih hs' hc hsvc
    · exact (ih.authenticated c id svc hc hsvc).concat hl
    · have hnew : IsHello c svc.auth ⟨s, .message c (.message object) calls, s₁.record events⟩ :=
        ⟨object, calls, rfl, hhello, by rw [hrecorded]; exact haccepted⟩
      exact ⟨h, _, [], rfl, hnew, List.forall_mem_nil _⟩

/-! ### Rights -/

/-- The authorizations that have been created are numbered in turn. -/
structure Numbered (s : XpcServer) : Prop where
  lt (c auth : ℕ) : .accepted c auth ∈ s.trace → auth < s.authorizations
  eq (c c' auth : ℕ) : .accepted c auth ∈ s.trace → .accepted c' auth ∈ s.trace → c = c'

theorem Does.authorizations_le (hdoes : Does os s l events s₁) :
    s.authorizations ≤ s₁.authorizations := by
  cases hdoes
  all_goals first | exact le_rfl | exact Nat.le_succ _

/-- An accepted `Hello` takes the next number. -/
theorem Does.eq_of_accepted (hdoes : Does os s l events s₁) {auth : ℕ}
    (he : .accepted c auth ∈ events) :
    auth = s.authorizations ∧ s₁.authorizations = s.authorizations + 1 ∧
      ∃ event calls, l = .message c event calls := by
  have hvalid {c' : ℕ} {v : Validation} :
      .accepted c auth ∉ (isMessageSignatureValid os c' v).1 := fun h ↦
    nomatch (eq_of_mem_isMessageSignatureValid h).2
  cases hdoes with
  | dropped r v hv => simpa using eq_of_mem_arrive (.dropped r v hv) he
  | activated r v hv => simpa using eq_of_mem_arrive (.activated r v hv) he
  | finalised => exact nomatch he
  | answered c' event calls _ hevents => simpa [hvalid] using hevents _ he
  | dispatched c' object calls m id hm svc hsvc reply =>
    obtain he : .accepted c auth ∈ (handleOne c' svc m calls).1 := by simpa [hvalid] using he
    simpa using eq_of_mem_handleOne he
  | accepted c' object calls m id hm hnone htype svc hcreate reply =>
    obtain ⟨rfl, rfl⟩ : c = c' ∧ auth = svc.auth := by simpa [hvalid] using he
    obtain ⟨-, rfl⟩ := AuthorizedService.create_eq_ok_iff.1 hcreate
    exact ⟨rfl, rfl, _, _, rfl⟩

theorem numbered_of_run (hrun : (system os).Run h s) : Numbered s := by
  refine hrun.invariant (I := Numbered) (fun s hs ↦ ?_) (fun s l s' ih hstep ↦ ?_)
  · obtain rfl : s = {} := hs
    exact ⟨nofun, nofun⟩
  · obtain ⟨events, s₁, hdoes, rfl, -⟩ := does_of_step hstep
    have hsplit {c auth : ℕ} (he : .accepted c auth ∈ (s₁.record events).trace) :
        .accepted c auth ∈ s.trace ∨ .accepted c auth ∈ events :=
      List.mem_append.1 (hdoes.trace_eq ▸ he)
    refine ⟨fun c auth he ↦ ?_, fun c c' auth he he' ↦ ?_⟩
    · show auth < s₁.authorizations
      obtain he | he := hsplit he
      · exact (ih.lt c auth he).trans_le hdoes.authorizations_le
      · obtain ⟨rfl, hnext, -⟩ := hdoes.eq_of_accepted he
        exact hnext ▸ Nat.lt_succ_self _
    · -- an earlier authorization has a smaller number than the next one
      obtain he | he := hsplit he <;> obtain he' | he' := hsplit he'
      · exact ih.eq c c' auth he he'
      · exact absurd (hdoes.eq_of_accepted he').1 (ih.lt c auth he).ne
      · exact absurd (hdoes.eq_of_accepted he).1 (ih.lt c' auth he').ne
      · obtain ⟨-, -, _, _, rfl⟩ := hdoes.eq_of_accepted he
        obtain ⟨-, -, _, _, hl⟩ := hdoes.eq_of_accepted he'
        exact (Label.message.inj hl).1

/-- What a move records stays recorded. -/
theorem mem_trace_of_run (hrun : (system os).Run h s) {t : Move XpcServer Label} (ht : t ∈ h)
    {e : Event} (he : e ∈ recorded t) : e ∈ s.trace := by
  induction hrun with
  | start => exact nomatch ht
  | move hrun hstep ih =>
    obtain ⟨events, s₁, hdoes, rfl, hrecorded⟩ := does_of_step hstep
    show e ∈ s₁.trace ++ events
    rw [hdoes.trace_eq]
    obtain ht | ht := List.mem_append.1 ht
    · exact List.mem_append_left _ (ih ht)
    · obtain rfl := List.mem_singleton.1 ht
      exact List.mem_append_right _ (hrecorded ▸ he)

theorem Authenticated.mem_trace {auth : ℕ} (ha : Authenticated c auth h)
    (hrun : (system os).Run h s) : .accepted c auth ∈ s.trace := by
  obtain ⟨h₁, t, h₂, rfl, ⟨object, calls, -, -, haccepted⟩, -⟩ := ha
  exact mem_trace_of_run hrun (by simp) haccepted

/-- No message replaces a service. -/
theorem Does.connection_of_message {event : XpcEvent} {calls : Calls}
    (hdoes : Does os s (.message c event calls) events s₁) {id : UInt64} {svc : AuthorizedService}
    (hsvc : s.connections id = some svc) : s₁.connections id = some svc := by
  cases hdoes with
  | answered | dispatched => exact hsvc
  | accepted _ object _ m id' hm hnone =>
    have hne : id ≠ id' := by
      rintro rfl
      exact nomatch hsvc.symm.trans hnone
    simpa [hne] using hsvc

/-- What stands before the first occurrence of an element stands before every one. -/
theorem mem_of_append_cons_eq {α : Type*} {xs ys before after : List α} {a e : α}
    (heq : xs ++ e :: ys = before ++ e :: after) (he : e ∉ xs) (ha : a ∈ xs) : a ∈ before := by
  obtain ⟨zs, rfl, -⟩ | ⟨zs, rfl, hzs⟩ := List.append_eq_append_iff.1 heq
  · exact List.mem_append_left _ ha
  · cases zs with
    | nil => simpa using ha
    | cons z zs =>
      obtain rfl := (List.cons.inj hzs).1
      exact absurd (List.mem_append_right _ List.mem_cons_self) he

/-- The service is called for a message of a connection that has one, after the right is granted. -/
theorem Does.invoked (hdoes : Does os s l events s₁) {operation : Operation}
    {before after : List Event} (heq : events = before ++ .invoked c operation :: after) :
    ∃ object calls id svc, l = .message c (.message object) calls ∧ s.contexts c = some id ∧
      s.connections id = some svc ∧ .granted svc.auth operation.rightName ∈ before := by
  have hmem : .invoked c operation ∈ events :=
    heq ▸ List.mem_append_right _ List.mem_cons_self
  have hvalid {c' : ℕ} {v : Validation} :
      .invoked c operation ∉ (isMessageSignatureValid os c' v).1 := fun h ↦
    nomatch (eq_of_mem_isMessageSignatureValid h).2
  cases hdoes with
  | dropped r v hv => simpa using eq_of_mem_arrive (.dropped r v hv) hmem
  | activated r v hv => simpa using eq_of_mem_arrive (.activated r v hv) hmem
  | finalised => exact nomatch hmem
  | answered c' event calls _ hevents => simpa [hvalid] using hevents _ hmem
  | accepted c' object calls m id hm hnone htype svc hcreate reply => simp [hvalid] at hmem
  | dispatched c' object calls m id hm svc hsvc reply =>
    obtain hnil | ⟨operation', hauthorized⟩ := events_of_handleOne c' svc m calls
    · simp [hnil, hvalid] at hmem
    · -- the call is the last event before the reply, and the right comes before it
      rw [hauthorized, AuthorizedService.authorized] at hmem heq
      obtain ⟨rfl, rfl⟩ : c = c' ∧ operation = operation' := by simpa [hvalid] using hmem
      refine ⟨object, calls, id, svc, rfl, hm.context, hsvc, ?_⟩
      have hsplit : ((isMessageSignatureValid os c calls.validation).1 ++
          [.dispatched c, .granted svc.auth operation.rightName]) ++
            .invoked c operation :: [sendReply c calls reply] =
          before ++ .invoked c operation :: after := by
        simpa using heq
      exact mem_of_append_cons_eq hsplit (by simp [hvalid]) (by simp)

/-- **Rights are respected** in every run in which no two connections that are alive have the same
id. -/
theorem rightsRespected_of_run (hrun : (system os).Run h s)
    (hids : ∀ t ∈ h, DistinctIds t.target) : RightsRespected h s := by
  have howned := owned_of_run hrun hids
  refine ⟨fun h₁ t h₂ heq c operation before after hrecorded ↦ ?_, ?_, ?_, ?_⟩
  · obtain ⟨hsource, hstep⟩ := hrun.of_append heq
    have hids₁ : ∀ t ∈ h₁, DistinctIds t.target := fun t ht ↦
      hids t (heq ▸ List.mem_append_left _ ht)
    obtain ⟨events, s₁, hdoes, -, hevents⟩ := does_of_step hstep
    obtain ⟨object, calls, id, svc, hl, hc, hsvc, hgranted⟩ :=
      hdoes.invoked (hevents.symm.trans hrecorded)
    exact ⟨⟨_, _, hl⟩, svc.auth, (owned_of_run hsource hids₁).authenticated c id svc hc hsvc,
      hgranted⟩
  · exact (numbered_of_run hrun).eq
  · intro c c' id id' svc svc' hc hc' hsvc hsvc' heq
    have haccepted := (howned.authenticated c id svc hc hsvc).mem_trace hrun
    have haccepted' := (howned.authenticated c' id' svc' hc' hsvc').mem_trace hrun
    exact (numbered_of_run hrun).eq c c' svc.auth haccepted (heq ▸ haccepted')
  · rintro t ht c event calls hl id svc hsvc
    obtain ⟨-, -, -, hstep⟩ := hrun.exists_of_mem ht
    obtain ⟨events, s₁, hdoes, htarget, -⟩ := does_of_step hstep
    rw [hl] at hdoes
    rw [htarget]
    exact hdoes.connection_of_message hsvc

/-! ### Ids -/

/-- Ids are handed out in turn from 1 on, no more of them than connections have arrived. -/
def InTurn (s : XpcServer) : Prop :=
  ∃ n ≤ s.arrived, s.nextId = UInt64.ofNat (1 + n) ∧
    ∀ c id, s.contexts c = some id → ∃ k < n, id = UInt64.ofNat (1 + k)

theorem inTurn_of_run (hrun : (system os).Run h s) : InTurn s := by
  refine hrun.invariant (I := InTurn) (fun s hs ↦ ?_) (fun s l s' ih hstep ↦ ?_)
  · obtain rfl : s = {} := hs
    exact ⟨0, le_rfl, rfl, nofun⟩
  · obtain ⟨n, hn, hnext, hids⟩ := ih
    obtain ⟨events, s₁, hdoes, rfl, -⟩ := does_of_step hstep
    cases hdoes with
    | dropped => exact ⟨n, hn.trans (Nat.le_succ _), hnext, hids⟩
    | answered | dispatched | accepted => exact ⟨n, hn, hnext, hids⟩
    | activated r v hv =>
      refine ⟨n + 1, Nat.succ_le_succ hn, ?_, fun c id hc ↦ ?_⟩
      · show s.nextId + 1 = _
        rw [hnext]
        exact (UInt64.ofNat_add (1 + n) 1).symm
      · obtain rfl | hne := eq_or_ne c s.arrived
        · obtain rfl : s.nextId = id := by simpa [record] using hc
          exact ⟨n, Nat.lt_succ_self n, hnext⟩
        · obtain ⟨k, hk, hid⟩ := hids c id (by simpa [record, hne] using hc)
          exact ⟨k, hk.trans (Nat.lt_succ_self n), hid⟩
    | finalised c' id' hc' =>
      refine ⟨n, hn, hnext, fun c id hc ↦ hids c id ?_⟩
      have hne : c ≠ c' := by
        rintro rfl
        simp [record] at hc
      simpa [record, hne] using hc

/-- As long as no more than 2⁶⁴ connections have arrived, those that are alive have different
ids. -/
theorem distinctIds_of_run (hrun : (system os).Run h s) (harrived : s.arrived ≤ 2 ^ 64) :
    DistinctIds s := by
  induction hrun with
  | start hs =>
    obtain rfl := hs
    exact nofun
  | @move h s _ l hrun hstep ih =>
    obtain ⟨n, hn, hnext, hids⟩ := inTurn_of_run hrun
    obtain ⟨events, s₁, hdoes, rfl, -⟩ := does_of_step hstep
    have ih := ih (hdoes.arrived_le.trans harrived)
    cases hdoes with
    | dropped | answered | dispatched | accepted => exact ih
    | activated r v hv =>
      have hlt : s.arrived + 1 ≤ 2 ^ 64 := harrived
      have hfresh {c : ℕ} : s.contexts c ≠ some s.nextId := by
        intro hc
        obtain ⟨k, hk, heq⟩ := hids c _ hc
        have hmod := congrArg UInt64.toNat (hnext.symm.trans heq)
        simp only [UInt64.toNat_ofNat'] at hmod
        omega
      intro c c' id hc hc'
      obtain rfl | hne := eq_or_ne c s.arrived <;> obtain rfl | hne' := eq_or_ne c' s.arrived
      · rfl
      · obtain rfl : s.nextId = id := by simpa [record] using hc
        exact absurd (by simpa [record, hne'] using hc') hfresh
      · obtain rfl : s.nextId = id := by simpa [record] using hc'
        exact absurd (by simpa [record, hne] using hc) hfresh
      · exact ih c c' id (by simpa [record, hne] using hc) (by simpa [record, hne'] using hc')
    | finalised c₀ id' hc₀ =>
      have hsource {c : ℕ} {id : UInt64}
          (hc : Function.update s.contexts c₀ none c = some id) : s.contexts c = some id := by
        have hne : c ≠ c₀ := by
          rintro rfl
          simp at hc
        simpa [hne] using hc
      exact fun c c' id hc hc' ↦ ih c c' id (hsource hc) (hsource hc')

theorem distinctIds_of_mem (hrun : (system os).Run h s) (harrived : s.arrived ≤ 2 ^ 64) :
    ∀ t ∈ h, DistinctIds t.target := by
  induction hrun with
  | start => exact List.forall_mem_nil _
  | move hrun hstep ih =>
    intro t ht
    obtain ⟨events, s₁, hdoes, rfl, -⟩ := does_of_step hstep
    obtain ht | ht := List.mem_append.1 ht
    · exact ih (hdoes.arrived_le.trans harrived) t ht
    · obtain rfl := List.mem_singleton.1 ht
      exact distinctIds_of_run (hrun.move hstep) harrived

/-! ### Requests -/

/-- A request for the proxy settings. -/
def exampleRequest : XpcObject := .dictionary [("t", .int64 4), ("p", .null)]

/-- A request is served with the service that is kept under the id of its connection. -/
theorem exists_request {id : UInt64} {svc : AuthorizedService} (hc : s.contexts c = some id)
    (hsvc : s.connections id = some svc) :
    ∃ s', (system .macOS11).step s (.message c (.message exampleRequest) {}) s' ∧
      s'.arrived = s.arrived ∧ recorded ⟨s, .message c (.message exampleRequest) {}, s'⟩ =
        [.messageValidated c, .dispatched c, .granted svc.auth getProxyStateRightName] ++
          .invoked c .getHttpProxyState ::
            [.replied c ⟨.getProxyState, ProxyState.none.toXpc⟩] := by
  let events : List Event :=
    [.messageValidated c, .dispatched c, .granted svc.auth getProxyStateRightName,
      .invoked c .getHttpProxyState, .replied c ⟨.getProxyState, ProxyState.none.toXpc⟩]
  have hanswer : answer c id ⟨.getProxyState, .null⟩ {} (s.record [.messageValidated c]) =
      ((s.record [.messageValidated c]).record
          (.dispatched c :: svc.authorized c .getHttpProxyState),
        .ok ⟨.getProxyState, ProxyState.none.toXpc⟩) := by
    rw [answer, show (s.record [.messageValidated c]).connections id = some svc from hsvc]
    rfl
  have hhandle : handle .macOS11 (.message c (.message exampleRequest) {}) s =
      some (s.record events) := by
    have hvalid : isMessageSignatureValid .macOS11 c ({} : Calls).validation =
        ([.messageValidated c], true) := rfl
    have hunwrap : Message.unwrap exampleRequest = some ⟨.getProxyState, .null⟩ := rfl
    simp only [handle, handleIncomingMessage, hvalid, hunwrap, hc, hanswer, record_record]
    rfl
  refine ⟨s.record events, ⟨fun c' hc' ↦ ?_, hhandle⟩, rfl, List.drop_left⟩
  obtain rfl := Option.some.inj hc'
  simp [hc]

/-- A connection that has sent a `Hello`, on macOS 11. -/
theorem exists_hello : ∃ h s, (system .macOS11).Run h s ∧ s.arrived = 1 ∧ s.nextId = 2 ∧
    s.contexts 0 = some 1 ∧ s.connections 1 = some { auth := 0 } ∧
    (∀ t ∈ h, ∀ c event calls, t.label = .message c event calls → c = 0) ∧
    ∀ t ∈ h, t.label.ExpectsReply := by
  have harrival := (Run.start (S := system .macOS11) rfl).move (l := .arrive 0 {}) ⟨nofun, rfl⟩
  have hhello := harrival.move (l := .message 0 (.message exampleHello) {})
    ⟨fun c hc ↦ Option.some.inj hc ▸ Option.some_ne_none _, rfl⟩
  refine ⟨_, _, hhello, rfl, rfl, rfl, rfl, ?_, ?_⟩
  · simp
  · simp [Label.ExpectsReply]

/-- A connection says `Hello` and sends a request. -/
theorem exists_helloThenRequest : ∃ h s, (system .macOS11).Run h s ∧
    .invoked 0 .getHttpProxyState ∈ s.trace ∧ (∀ t ∈ h, DistinctIds t.target) ∧
    ∀ t ∈ h, t.label.ExpectsReply := by
  obtain ⟨h, s, hrun, harrived, -, hc, hsvc, -, hreplies⟩ := exists_hello
  obtain ⟨s', hstep, hsame, hrecorded⟩ := exists_request hc hsvc
  have hrun' := hrun.move hstep
  refine ⟨_, s', hrun', ?_, ?_, ?_⟩
  · exact mem_trace_of_run hrun' List.mem_concat_self (by rw [hrecorded]; simp)
  · exact distinctIds_of_mem hrun' (by rw [hsame, harrived]; decide)
  · exact List.forall_mem_append.2 ⟨hreplies, List.forall_mem_singleton.2 rfl⟩

/-- Rights are respected then. -/
theorem helloThenRequest_rightsRespected :
    ∃ h s, (system .macOS11).Run h s ∧
      .invoked 0 .getHttpProxyState ∈ s.trace ∧ RightsRespected h s := by
  obtain ⟨h, s, hrun, hinvoked, hids, -⟩ := exists_helloThenRequest
  exact ⟨h, s, hrun, hinvoked, rightsRespected_of_run hrun hids⟩

/-- Arrivals use up ids, and leave a service as it is. -/
theorem exists_arrivals (k : ℕ) : ∃ h s, (system .macOS11).Run h s ∧ s.arrived = 1 + k ∧
    s.nextId = UInt64.ofNat (2 + k) ∧ s.connections 1 = some { auth := 0 } ∧
    ∀ t ∈ h, ∀ c event calls, t.label = .message c event calls → c = 0 := by
  induction k with
  | zero =>
    obtain ⟨h, s, hrun, harrived, hnext, -, hsvc, hlabels, -⟩ := exists_hello
    exact ⟨h, s, hrun, harrived, hnext, hsvc, hlabels⟩
  | succ k ih =>
    obtain ⟨h, s, hrun, harrived, hnext, hsvc, hlabels⟩ := ih
    refine ⟨_, _, hrun.move (l := .arrive 0 {}) ⟨nofun, rfl⟩, ?_, ?_, hsvc, ?_⟩
    · exact congrArg (· + 1) harrived
    · show s.nextId + 1 = _
      rw [hnext]
      exact (UInt64.ofNat_add (2 + k) 1).symm
    · intro t ht
      obtain ht | ht := List.mem_append.1 ht
      · exact hlabels t ht
      · intro c event calls hl
        rw [List.mem_singleton.1 ht] at hl
        exact nomatch hl

/-- The first id comes round to a connection that has not said `Hello`. -/
theorem exists_wrapped : ∃ h s, (system .macOS11).Run h s ∧ s.contexts (2 ^ 64) = some 1 ∧
    s.connections 1 = some { auth := 0 } ∧ ∀ auth, ¬ Authenticated (2 ^ 64) auth h := by
  obtain ⟨h, s, hrun, harrived, hnext, hsvc, hlabels⟩ := exists_arrivals (2 ^ 64 - 1)
  have hc : (handleIncomingConnection .macOS11 0 {} s).contexts (2 ^ 64) = some 1 := by
    show Function.update s.contexts s.arrived (some s.nextId) (2 ^ 64) = some 1
    rw [harrived, hnext]
    exact Function.update_self _ _ _
  refine ⟨_, _, hrun.move (l := .arrive 0 {}) ⟨nofun, rfl⟩, hc, hsvc, ?_⟩
  rintro auth ⟨h₁, t, h₂, heq, ⟨object, calls, hl, -, -⟩, -⟩
  -- no message has come from this connection
  have ht : t ∈ h ++ [⟨s, .arrive 0 {}, handleIncomingConnection .macOS11 0 {} s⟩] :=
    heq ▸ List.mem_append_right _ List.mem_cons_self
  obtain ht | ht := List.mem_append.1 ht
  · exact absurd (hlabels t ht _ _ _ hl) (by decide)
  · rw [List.mem_singleton.1 ht] at hl
    exact nomatch hl

/-- The connection that the first id comes round to has the service of the first connection called
for it, without having sent a message before. -/
theorem wrappedId_not_rightsRespected :
    ∃ h s, (system .macOS11).Run h s ∧ ¬ RightsRespected h s := by
  obtain ⟨h, s, hrun, hc, hsvc, hsilent⟩ := exists_wrapped
  obtain ⟨s', hstep, -, hrecorded⟩ := exists_request hc hsvc
  refine ⟨_, s', hrun.move hstep, fun hrights ↦ ?_⟩
  obtain ⟨-, auth, hauth, -⟩ := hrights.invoked _ _ [] rfl _ _ _ _ hrecorded
  exact hsilent auth hauth

end XpcServer

end Trusty

end Amanuensis
