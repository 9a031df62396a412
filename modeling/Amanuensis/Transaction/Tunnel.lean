import Mathlib.Data.List.Induction
import Amanuensis.Transaction.Exchange
import Amanuensis.Transaction.Failures

/-!
# The tunnel

Each direction of a tunnel reads into a buffer of its own and writes that buffer before it reads
again. What has been delivered is therefore always a beginning of what has been read
(`relays_of_run`): all of it while the direction reads, and all but the buffer while it writes.

What the tunnel does not relay are the bytes that came with the request: the parser stops in the
middle of a read, and the loop of the tunnel starts with a fresh one (`losesNothing_iff`).
-/

namespace Amanuensis

/-- The buffers a transaction reads into. -/
def Machine.buffers (m : Machine) : QByteArray × Option QByteArray :=
  (m.tx.readBuffer, m.tx.remoteBuffer)

namespace Transaction

open HttpMessageParser LabelledSystem

variable {m m' : Machine} {l : Label} {h : List (Move Machine Label)} {d : Direction}

/-! ### Buffers -/

/-- The buffer of a direction: `read_buffer_` or `remote_buffer_`. -/
def buffer (d : Direction) (m : Machine) : QByteArray :=
  match d with
  | .clientToRemote => m.tx.readBuffer
  | .remoteToClient => m.tx.remoteBuffer.getD []

/-- The operations that read into the buffer of a direction. -/
def readsInto (d : Direction) : Operation → Bool
  | .tunnelRead d' => d' = d
  | .readClientRequest | .readRemoteResponse => d = .clientToRemote
  | _ => false

theorem buffer_congr (hb : m'.buffers = m.buffers) (d : Direction) : buffer d m' = buffer d m := by
  obtain ⟨hread, hremote⟩ := Prod.ext_iff.1 hb
  cases d with
  | clientToRemote => exact hread
  | remoteToClient => exact congrArg (fun b ↦ Option.getD b []) hremote

@[simp] theorem buffer_fillBuffer (d : Direction) (data : QByteArray) (m : Machine) :
    buffer d (fillBuffer d data m) = data := by
  cases d <;> rfl

theorem buffer_fillBuffer_of_ne {d' : Direction} (hne : d' ≠ d) (data : QByteArray) (m : Machine) :
    buffer d (fillBuffer d' data m) = buffer d m := by
  cases d <;> cases d' <;> first | rfl | exact absurd rfl hne

theorem buffers_of_lockGuard {body : Machine → Except Halt Machine}
    (hbody : ∀ m₁ m₂, body m₁ = .ok m₂ → m₂.buffers = m₁.buffers)
    (hm : lockGuard m body = .ok m') : m'.buffers = m.buffers := by
  obtain ⟨m₁, hresult, rfl⟩ := exists_of_lockGuard hm
  have hkeep := hbody _ _ hresult
  exact hkeep

theorem buffers_of_releaseConnections (hm : releaseConnections m = .ok m') :
    m'.buffers = m.buffers := by
  refine buffers_of_lockGuard (fun m₁ m₂ hbody ↦ ?_) hm
  obtain rfl := Except.ok.inj hbody
  rfl

theorem buffers_of_completeTransaction (hm : completeTransaction m = .ok m') :
    m'.buffers = m.buffers := by
  obtain ⟨m₁, hrelease, hemit⟩ := exists_ok_of_bind hm
  obtain rfl := Except.ok.inj hemit
  have hkeep : m₁.buffers = m.buffers := buffers_of_releaseConnections hrelease
  exact hkeep

theorem buffers_of_notifyFailure {ec : ErrorCode} (hm : notifyFailure ec m = .ok m') :
    m'.buffers = m.buffers := by
  obtain ⟨m₁, hrelease, hrest⟩ := exists_ok_of_bind hm
  have hkeep : m₁.buffers = m.buffers := buffers_of_releaseConnections hrelease
  exact (buffers_of_completeTransaction hrest).trans hkeep

theorem buffers_of_sendViaTunnel (hm : sendViaTunnel d m = .ok m') : m'.buffers = m.buffers := by
  refine buffers_of_lockGuard (fun m₁ m₂ hbody ↦ ?_) hm
  split_ifs at hbody <;> exact Except.ok.inj hbody ▸ rfl

/-- A read of the tunnel leaves its bytes in its buffer. -/
theorem buffers_of_onTunnelRead {c : Completion} (hm : onTunnelRead d c m = .ok m') :
    m'.buffers = (fillBuffer d c.data m).buffers := by
  rw [onTunnelRead] at hm
  split_ifs at hm
  · exact buffers_of_releaseConnections hm
  · exact buffers_of_notifyFailure hm
  · refine buffers_of_lockGuard (fun m₁ m₂ hbody ↦ ?_) hm
    split_ifs at hbody <;> exact Except.ok.inj hbody ▸ rfl

theorem buffers_of_onTunnelWrite {bytes : QByteArray} {c : Completion}
    (hm : onTunnelWrite d bytes c m = .ok m') : m'.buffers = m.buffers := by
  rw [onTunnelWrite] at hm
  split_ifs at hm
  · exact buffers_of_notifyFailure hm
  · exact buffers_of_notifyFailure hm
  · exact buffers_of_sendViaTunnel hm

/-! ### What is read and what is delivered -/

/-- The bytes a direction reads in a move. -/
def tunnelReadOf (d : Direction) (t : Move Machine Label) : Option QByteArray :=
  match t.label.operation with
  | .tunnelRead d' => if d' = d then some t.label.completion.data else none
  | _ => none

/-- The bytes a direction delivers in a move: those of its buffer that the write has written. -/
def deliveryOf (d : Direction) (t : Move Machine Label) : Option QByteArray :=
  match t.label.operation with
  | .tunnelWrite d' _ =>
    if d' = d then some ((buffer d t.source).take t.label.completion.written) else none
  | _ => none

/-- What a direction of the tunnel has read from its source. -/
def tunnelReads (d : Direction) (h : List (Move Machine Label)) : List QByteArray :=
  h.filterMap (tunnelReadOf d)

/-- What a direction of the tunnel has delivered to its destination. -/
def delivered (d : Direction) (h : List (Move Machine Label)) : List QByteArray :=
  h.filterMap (deliveryOf d)

theorem filterMap_append_singleton {α β : Type*} (f : α → Option β) (xs : List α) (x : α) :
    (xs ++ [x]).filterMap f = xs.filterMap f ++ (f x).toList := by
  rw [List.filterMap_append]
  cases hx : f x <;> simp [hx]

theorem tunnelReads_append (d : Direction) (h : List (Move Machine Label))
    (t : Move Machine Label) :
    tunnelReads d (h ++ [t]) = tunnelReads d h ++ (tunnelReadOf d t).toList :=
  filterMap_append_singleton _ _ _

theorem delivered_append (d : Direction) (h : List (Move Machine Label)) (t : Move Machine Label) :
    delivered d (h ++ [t]) = delivered d h ++ (deliveryOf d t).toList :=
  filterMap_append_singleton _ _ _

/-- **What a pending operation says of a direction**: everything read has been delivered, or is in
the buffer; outside the tunnel nothing has been read. -/
def Carries (d : Direction) (h : List (Move Machine Label)) (m : Machine) : Operation → Prop
  | .tunnelRead d' => d' = d → (delivered d h).flatten = (tunnelReads d h).flatten
  | .tunnelWrite d' bytes => d' = d →
      buffer d m = bytes ∧ (delivered d h).flatten ++ bytes = (tunnelReads d h).flatten
  | _ => delivered d h = [] ∧ tunnelReads d h = []

/-! ### One step of the tunnel -/

theorem tunnelReadOf_of_ne {t : Move Machine Label} (hne : t.label.operation.direction ≠ some d) :
    tunnelReadOf d t = none ∧ deliveryOf d t = none := by
  rw [tunnelReadOf, deliveryOf]
  cases hop : t.label.operation with
  | tunnelRead d' | tunnelWrite d' =>
    rw [hop] at hne
    have hd : d' ≠ d := fun heq ↦ hne (congrArg some heq)
    simp [hd]
  | _ => exact ⟨rfl, rfl⟩

/-- Another direction leaves this one alone. -/
theorem carried_append_of_ne {t : Move Machine Label}
    (hne : t.label.operation.direction ≠ some d) :
    tunnelReads d (h ++ [t]) = tunnelReads d h ∧ delivered d (h ++ [t]) = delivered d h := by
  obtain ⟨hread, hdelivery⟩ := tunnelReadOf_of_ne hne
  rw [tunnelReads_append, delivered_append, hread, hdelivery]
  exact ⟨List.append_nil _, List.append_nil _⟩

/-- A write is started by the read that has brought its bytes. -/
theorem operation_of_tunnelWrite {bytes : QByteArray}
    (hop : .tunnelWrite d bytes ∈ (effectOf m l).operations) :
    l.operation = .tunnelRead d ∧ l.completion.data = bytes := by
  obtain ⟨op, c⟩ := l
  cases op <;> grind [effectOf, Effect.operations]

/-- A read is started with the tunnel, or by a write that is complete. -/
theorem operation_of_tunnelRead (hop : .tunnelRead d ∈ (effectOf m l).operations) :
    l.operation.direction = none ∨
      ∃ bytes, l.operation = .tunnelWrite d bytes ∧ l.completion.written = bytes.length := by
  obtain ⟨op, c⟩ := l
  cases op <;> grind [effectOf, Effect.operations, Operation.direction]

/-- What a tunnel operation does to the buffers. -/
theorem buffer_of_step (hstep : system.step m l m')
    (hd : l.operation.direction ≠ none) :
    (∀ d', l.operation = .tunnelRead d' → buffer d' m' = l.completion.data) ∧
      ∀ d', l.operation ≠ .tunnelRead d' → buffer d' m' = buffer d' m := by
  obtain ⟨hl, hok⟩ := hstep
  obtain ⟨op, c⟩ := l
  cases op with
  | tunnelRead d₀ =>
    have hbuffers : m'.buffers = (fillBuffer d₀ c.data (m.without (.tunnelRead d₀))).buffers :=
      buffers_of_onTunnelRead hok
    refine ⟨fun d' hd' ↦ ?_, fun d' hd' ↦ ?_⟩
    · obtain rfl : d₀ = d' := Operation.tunnelRead.inj hd'
      rw [buffer_congr hbuffers, buffer_fillBuffer]
    · have hne : d₀ ≠ d' := fun heq ↦ hd' (congrArg _ heq)
      rw [buffer_congr hbuffers, buffer_fillBuffer_of_ne hne]
      exact buffer_congr rfl d'
  | tunnelWrite d₀ bytes =>
    have hbuffers : m'.buffers = (m.without (.tunnelWrite d₀ bytes)).buffers :=
      buffers_of_onTunnelWrite hok
    exact ⟨fun d' hd' ↦ (nomatch hd'), fun d' _ ↦ buffer_congr hbuffers d'⟩
  | _ => exact absurd rfl hd

/-- **A direction carries its bytes.** -/
structure Carrying (d : Direction) (h : List (Move Machine Label)) (m : Machine) : Prop where
  pending : ∀ op ∈ m.pending, Carries d h m op
  ordered : (delivered d h).flatten <+: (tunnelReads d h).flatten

/-- Two operations of one direction are never pending together. -/
theorem direction_ne_of_mem_erase (hm : Control m) (hl : l.operation ∈ m.pending)
    (hd : l.operation.direction = some d) {op : Operation}
    (hop : op ∈ m.pending.erase l.operation) : op.direction ≠ some d := by
  rcases hm.stage.handling hl hd with ⟨o, hp, ho, -, -, -⟩ | ⟨hp, -, -⟩
  · have hmem : op ∈ [o] := hp ▸ hop
    rw [List.mem_singleton.1 hmem, ho]
    cases d <;> exact fun heq ↦ nomatch heq
  · have hmem : op ∈ ([] : List Operation) := hp ▸ hop
    exact absurd hmem List.not_mem_nil

/-- What is pending in the tunnel after a step of it: an old operation, or one just started. -/
theorem mem_pending_of_step (hm : Control m) (hstep : system.step m l m') {op : Operation}
    (hop : op ∈ m'.pending) :
    op ∈ m.pending.erase l.operation ∨ op ∈ (effectOf m l).operations := by
  obtain ⟨notes, -, happlied⟩ := hm.applied hstep rfl
  rw [happlied.pending] at hop
  exact List.mem_append.1 hop

/-- The bytes of a read are in its buffer. -/
theorem carried_append_of_read {t : Move Machine Label} (hop : t.label.operation = .tunnelRead d) :
    tunnelReads d (h ++ [t]) = tunnelReads d h ++ [t.label.completion.data] ∧
      delivered d (h ++ [t]) = delivered d h := by
  rw [tunnelReads_append, delivered_append, tunnelReadOf, deliveryOf, hop]
  simp

/-- A write delivers bytes of its buffer. -/
theorem carried_append_of_write {t : Move Machine Label} {bytes : QByteArray}
    (hop : t.label.operation = .tunnelWrite d bytes) :
    tunnelReads d (h ++ [t]) = tunnelReads d h ∧
      delivered d (h ++ [t]) =
        delivered d h ++ [(buffer d t.source).take t.label.completion.written] := by
  rw [tunnelReads_append, delivered_append, tunnelReadOf, deliveryOf, hop]
  simp

/-- A pending operation of the other direction says nothing of this one. -/
theorem carries_of_direction_ne {op : Operation} (hop : op.direction ≠ some d)
    (hdir : op.direction ≠ none) : Carries d h m op := by
  cases op with
  | tunnelRead d' | tunnelWrite d' bytes => exact fun heq ↦ absurd (congrArg some heq) hop
  | _ => exact absurd rfl hdir

/-- Outside the tunnel nothing has been read, and no write is started. -/
theorem Carrying.step_of_none (hm : Control m) (hcarry : Carrying d h m)
    (hstep : system.step m l m') (hdir : l.operation.direction = none) :
    Carrying d (h ++ [⟨m, l, m'⟩]) m' := by
  have hknown := hcarry.pending l.operation hstep.1
  obtain ⟨hreads, hdelivered⟩ := carried_append_of_ne (h := h) (d := d) (t := ⟨m, l, m'⟩)
    (by rw [hdir]; exact fun heq ↦ nomatch heq)
  obtain ⟨hdeliveredNil, hreadsNil⟩ : delivered d h = [] ∧ tunnelReads d h = [] := by
    obtain ⟨op, c⟩ := l
    cases op <;> first | exact hknown | exact nomatch hdir
  rw [hdeliveredNil] at hdelivered
  rw [hreadsNil] at hreads
  refine ⟨fun op hop ↦ ?_, by simp [hdelivered, hreads]⟩
  rw [hm.pending hstep hdir] at hop
  cases op with
  | tunnelRead d' => exact fun _ ↦ by rw [hdelivered, hreads]
  | tunnelWrite d' bytes =>
    have hread := (operation_of_tunnelWrite hop).1
    rw [hread] at hdir
    exact nomatch hdir
  | _ => exact ⟨hdelivered, hreads⟩

/-- A step of the other direction. -/
theorem Carrying.step_of_ne (hm : Control m) (hcarry : Carrying d h m)
    (hstep : system.step m l m') (hne : l.operation.direction ≠ none)
    (hother : l.operation.direction ≠ some d) : Carrying d (h ++ [⟨m, l, m'⟩]) m' := by
  obtain ⟨hreads, hdelivered⟩ := carried_append_of_ne (h := h) (t := ⟨m, l, m'⟩) hother
  refine ⟨fun op hop ↦ ?_, by rw [hdelivered, hreads]; exact hcarry.ordered⟩
  by_cases hop' : op.direction = some d
  -- an operation of this direction was pending before: the step starts one of the other
  · rcases mem_pending_of_step hm hstep hop with hold | hnew
    · have hold := hcarry.pending op (List.mem_of_mem_erase hold)
      cases op with
      | tunnelRead d' => exact fun heq ↦ by rw [hdelivered, hreads, hold heq]
      | tunnelWrite d' bytes =>
        intro heq
        obtain ⟨hbuffer, hall⟩ := hold heq
        have hkept := (buffer_of_step hstep hne).2 d fun hread ↦
          hother (congrArg Operation.direction hread)
        refine ⟨hkept.trans hbuffer, ?_⟩
        rw [hdelivered, hreads, hall]
      | _ => exact nomatch hop'
    · cases op with
      | tunnelRead d' =>
        rcases operation_of_tunnelRead hnew with hnone | ⟨bytes, hwrite, -⟩
        · exact absurd hnone hne
        · exact absurd ((congrArg Operation.direction hwrite).trans hop') hother
      | tunnelWrite d' bytes =>
        have hread := (operation_of_tunnelWrite hnew).1
        exact absurd ((congrArg Operation.direction hread).trans hop') hother
      | _ => exact nomatch hop'
  · exact carries_of_direction_ne hop' (hm.direction hstep hne hop)

/-- A read: its bytes are in the buffer, and all before them have been delivered. -/
theorem Carrying.step_read {c : Completion} (hm : Control m) (hcarry : Carrying d h m)
    (hstep : system.step m ⟨.tunnelRead d, c⟩ m') :
    Carrying d (h ++ [⟨m, ⟨.tunnelRead d, c⟩, m'⟩]) m' := by
  have hne : (Operation.tunnelRead d).direction ≠ none := Option.some_ne_none d
  have hall : (delivered d h).flatten = (tunnelReads d h).flatten :=
    hcarry.pending _ hstep.1 rfl
  obtain ⟨hreads, hdelivered⟩ :=
    carried_append_of_read (h := h) (t := ⟨m, ⟨.tunnelRead d, c⟩, m'⟩) rfl
  refine ⟨fun op hop ↦ ?_, ?_⟩
  · by_cases hop' : op.direction = some d
    · rcases mem_pending_of_step hm hstep hop with hold | hnew
      · exact absurd hop' (direction_ne_of_mem_erase hm hstep.1 rfl hold)
      · cases op with
        | tunnelRead d' =>
          rcases operation_of_tunnelRead hnew with hnone | ⟨bytes, hwrite, -⟩
          · exact absurd hnone hne
          · exact nomatch hwrite
        | tunnelWrite d' bytes =>
          obtain rfl : d' = d := Option.some_inj.1 hop'
          obtain ⟨-, hdata⟩ := operation_of_tunnelWrite hnew
          have hfilled := (buffer_of_step hstep hne).1 d' rfl
          refine fun _ ↦ ⟨hfilled.trans hdata, ?_⟩
          rw [hdelivered, hreads, List.flatten_append, List.flatten_singleton, hall, ← hdata]
        | _ => exact nomatch hop'
    · exact carries_of_direction_ne hop' (hm.direction hstep hne hop)
  · rw [hdelivered, hreads, List.flatten_append, hall]
    exact List.prefix_append _ _

/-- A write: the direction reads again only when all of its buffer has been delivered. -/
theorem Carrying.step_write {bytes : QByteArray} {c : Completion} (hm : Control m)
    (hcarry : Carrying d h m) (hstep : system.step m ⟨.tunnelWrite d bytes, c⟩ m') :
    Carrying d (h ++ [⟨m, ⟨.tunnelWrite d bytes, c⟩, m'⟩]) m' := by
  have hne : (Operation.tunnelWrite d bytes).direction ≠ none := Option.some_ne_none d
  obtain ⟨hbuffer, hall⟩ : buffer d m = bytes ∧
    (delivered d h).flatten ++ bytes = (tunnelReads d h).flatten := hcarry.pending _ hstep.1 rfl
  obtain ⟨hreads, hdelivered⟩ :=
    carried_append_of_write (h := h) (t := ⟨m, ⟨.tunnelWrite d bytes, c⟩, m'⟩) rfl
  have hflatten : (delivered d (h ++ [⟨m, ⟨.tunnelWrite d bytes, c⟩, m'⟩])).flatten =
      (delivered d h).flatten ++ bytes.take c.written := by
    rw [hdelivered, List.flatten_append, List.flatten_singleton, hbuffer]
  refine ⟨fun op hop ↦ ?_, ?_⟩
  · by_cases hop' : op.direction = some d
    · rcases mem_pending_of_step hm hstep hop with hold | hnew
      · exact absurd hop' (direction_ne_of_mem_erase hm hstep.1 rfl hold)
      · cases op with
        | tunnelRead d' =>
          obtain rfl : d' = d := Option.some_inj.1 hop'
          rcases operation_of_tunnelRead hnew with hnone | ⟨bytes', hwrite, hlength⟩
          · exact absurd hnone hne
          · obtain rfl : bytes = bytes' := (Operation.tunnelWrite.inj hwrite).2
            have hwritten : c.written = bytes.length := hlength
            intro _
            rw [hflatten, hreads, hwritten, List.take_length, hall]
        | tunnelWrite d' bytes' => exact nomatch (operation_of_tunnelWrite hnew).1
        | _ => exact nomatch hop'
    · exact carries_of_direction_ne hop' (hm.direction hstep hne hop)
  · rw [hflatten, hreads, ← hall]
    exact (List.prefix_append_right_inj _).2 (List.take_prefix _ _)

/-- **One step of a direction.** -/
theorem Carrying.step (hm : Control m) (hcarry : Carrying d h m) (hstep : system.step m l m') :
    Carrying d (h ++ [⟨m, l, m'⟩]) m' := by
  by_cases hnone : l.operation.direction = none
  · exact hcarry.step_of_none hm hstep hnone
  by_cases hsame : l.operation.direction = some d
  · obtain ⟨op, c⟩ := l
    cases op with
    | tunnelRead d' =>
      obtain rfl : d' = d := Option.some_inj.1 hsame
      exact hcarry.step_read hm hstep
    | tunnelWrite d' bytes =>
      obtain rfl : d' = d := Option.some_inj.1 hsame
      exact hcarry.step_write hm hstep
    | _ => exact absurd rfl hnone
  · exact hcarry.step_of_ne hm hstep hnone hsame

theorem carrying_of_run (hrun : system.Run h m) (d : Direction) : Carrying d h m := by
  induction hrun with
  | start hm =>
    obtain rfl := init_iff.1 hm
    refine ⟨fun op hop ↦ ?_, List.nil_prefix⟩
    obtain rfl : op = .readClientRequest := by simpa [begun] using hop
    exact ⟨rfl, rfl⟩
  | move hrun hstep ih => exact ih.step (control_of_run hrun) hstep

/-! ### The relay -/

/-- **A direction of the tunnel relays its stream.** -/
structure Relays (d : Direction) (h : List (Move Machine Label)) (m : Machine) : Prop where
  /-- At most one operation of the direction is outstanding. -/
  single : (m.pending.filter fun op ↦ op.direction = some d).length ≤ 1
  /-- While a write from the buffer is outstanding, the buffer keeps the bytes of the write, and no
  read has been given it. -/
  buffer : ∀ bytes, .tunnelWrite d bytes ∈ m.pending →
    buffer d m = bytes ∧ ∀ op ∈ m.pending, readsInto d op = false
  /-- What is delivered is a beginning of what is read. -/
  delivered : (delivered d h).flatten <+: (tunnelReads d h).flatten
  /-- At an end of file, all that was read before has been delivered. -/
  eof : ∀ h₁ t h₂, h = h₁ ++ t :: h₂ → t.label.operation = .tunnelRead d →
    t.label.completion.ec = .eof → (Transaction.delivered d h₁).flatten = (tunnelReads d h₁).flatten

/-- At most one operation of a direction is pending. -/
theorem Control.single (hm : Control m) (d : Direction) :
    (m.pending.filter fun op ↦ op.direction = some d).length ≤ 1 := by
  rcases hm.stage with ⟨hp, -, -⟩ | ⟨callback, hp | hp, -, -⟩ | ⟨bytes, hp | hp, -, -, -⟩ |
    ⟨hp, -, -⟩ | ⟨ec, hp, -, -, -⟩ | ⟨a, b, hp, ha, hb, -, -, -⟩ | ⟨⟨hlength, -⟩, -, -⟩
  -- one operation of each direction is pending
  case tunnelling =>
    rw [(hp.filter _).length_eq]
    cases d <;> simp [ha, hb]
  case closed => exact (List.length_filter_le _ _).trans hlength
  all_goals
    rw [hp]
    exact List.length_filter_le _ _

/-- While a direction writes, nothing reads into its buffer. -/
theorem Control.readsInto_eq_false (hm : Control m) {bytes : QByteArray}
    (hwrite : .tunnelWrite d bytes ∈ m.pending) {op : Operation} (hop : op ∈ m.pending) :
    readsInto d op = false := by
  cases op with
  | tunnelRead d' =>
    -- A second operation of the direction would be pending.
    refine decide_eq_false fun heq ↦ ?_
    obtain rfl := heq
    have hne : Operation.tunnelRead d' ≠ .tunnelWrite d' bytes := fun h ↦ nomatch h
    have hmem : .tunnelRead d' ∈ m.pending.erase (.tunnelWrite d' bytes) :=
      (List.mem_erase_of_ne hne).2 hop
    exact direction_ne_of_mem_erase (l := ⟨.tunnelWrite d' bytes, {}⟩) hm hwrite rfl hmem rfl
  | readClientRequest | readRemoteResponse =>
    -- outside the tunnel nothing else is pending
    have hone := (hm.stage.expected hop rfl).1
    rw [hone] at hwrite
    exact absurd (List.mem_singleton.1 hwrite) (fun heq ↦ nomatch heq)
  | _ => rfl

/-- **The tunnel relays both streams**, in every run. -/
theorem relays_of_run (hrun : system.Run h m) (d : Direction) : Relays d h m where
  single := (control_of_run hrun).single d
  buffer bytes hwrite :=
    ⟨((carrying_of_run hrun d).pending _ hwrite rfl).1, fun _ hop ↦
      (control_of_run hrun).readsInto_eq_false hwrite hop⟩
  delivered := (carrying_of_run hrun d).ordered
  eof h₁ t h₂ heq hop _ := by
    obtain ⟨hrun₁, hstep⟩ := hrun.of_append heq
    have hcarries := (carrying_of_run hrun₁ d).pending _ hstep.1
    rw [hop] at hcarries
    exact hcarries rfl

/-- A tunnel to its first reads. -/
def tunnelLabels : List Label :=
  connectLabels ++ [⟨.connectReply {} true (connectReplyText true), { written := 50 }⟩]

/-- Both directions are at a write, one of which has had a part delivered and goes on. -/
theorem twoWrites_relays :
    ∃ h m, system.Run h m ∧ .tunnelWrite .clientToRemote (asciiBytes "c") ∈ m.pending ∧
      .tunnelWrite .remoteToClient (asciiBytes "cd") ∈ m.pending ∧
      (delivered .clientToRemote h).flatten = asciiBytes "ab" ∧
      Relays .clientToRemote h m ∧ Relays .remoteToClient h m := by
  obtain ⟨h, m, hrun, hclient, hremote, hdelivered⟩ := exists_run_of_follow
    (tunnelLabels ++
      [⟨.tunnelRead .clientToRemote, { data := asciiBytes "ab" }⟩,
        ⟨.tunnelRead .remoteToClient, { data := asciiBytes "cd" }⟩,
        ⟨.tunnelWrite .clientToRemote (asciiBytes "ab"), { written := 2 }⟩,
        ⟨.tunnelRead .clientToRemote, { data := asciiBytes "c" }⟩])
    (fun h m ↦ .tunnelWrite .clientToRemote (asciiBytes "c") ∈ m.pending ∧
      .tunnelWrite .remoteToClient (asciiBytes "cd") ∈ m.pending ∧
      (delivered .clientToRemote h).flatten = asciiBytes "ab") (by decide +kernel)
  exact ⟨h, m, hrun, hclient, hremote, hdelivered, relays_of_run hrun _, relays_of_run hrun _⟩

/-! ### From the request to the tunnel -/

variable {h₀ : List (Move Machine Label)} {m₀ : Machine} {head : Head} {surplus : QByteArray}

/-- What has been read from the client: by the reads of the request, then by the tunnel. -/
def clientBytes (h : List (Move Machine Label)) : QByteArray :=
  (clientReads h).flatten ++ (tunnelReads .clientToRemote h).flatten

/-- **No byte is lost**: what is written to the remote are the bytes of the client that follow the
head of its request, from the first of them on. -/
def LosesNothing (head : Head) (h : List (Move Machine Label)) : Prop :=
  ∃ after, clientBytes h = head.render ++ after ∧
    (delivered .clientToRemote h).flatten <+: after

/-- A `CONNECT` has been read, and these bytes came after its head. -/
structure Connects (head : Head) (surplus : QByteArray) (h : List (Move Machine Label))
    (m : Machine) : Prop where
  wellFormed : head.WellFormed .request
  method : head.message.method = QString.ofString "CONNECT"
  reads : (clientReads h).flatten = head.render ++ surplus
  pending : .resolve .tunnel ∈ m.pending

theorem run_unique (hrun : system.Run h m) (hrun' : system.Run h m') : m = m' := by
  cases hrun with
  | start hm =>
    generalize heq : ([] : List (Move Machine Label)) = h at hrun'
    cases hrun' with
    | start hm' => exact (init_iff.1 hm).trans (init_iff.1 hm').symm
    | move _ _ => exact absurd heq (by simp)
  | move hrun hstep => exact (LabelledSystem.Run.of_concat hrun').2.2

/-- After the request, nothing more is read for it. -/
theorem clientReads_of_run (hrun₀ : system.Run h₀ m₀) (hpast : .readClientRequest ∉ m₀.pending)
    (hrun : system.Run (h₀ ++ h) m) :
    .readClientRequest ∉ m.pending ∧ clientReads (h₀ ++ h) = clientReads h₀ := by
  induction h using List.reverseRecOn generalizing m with
  | nil =>
    rw [List.append_nil] at hrun ⊢
    exact ⟨run_unique hrun₀ hrun ▸ hpast, rfl⟩
  | append_singleton h t ih =>
    rw [← List.append_assoc] at hrun ⊢
    obtain ⟨hsource, hstep, rfl⟩ := hrun.of_concat
    obtain ⟨hpast', hreads⟩ := ih hsource
    have hne : t.label.operation ≠ .readClientRequest := fun hread ↦ hpast' (hread ▸ hstep.1)
    refine ⟨fun hop ↦ ?_, (readsOf_append_of_ne hne).trans hreads⟩
    rcases mem_pending_of_step (control_of_run hsource) hstep hop with hold | hnew
    · exact hpast' (List.mem_of_mem_erase hold)
    · exact hne (operation_of_readClientRequest hnew)

/-- A `CONNECT` has been read when its host is looked up. -/
theorem Connects.past (hrun : system.Run h m) (hconnect : Connects head surplus h m) :
    .readClientRequest ∉ m.pending := by
  rw [((control_of_run hrun).stage.expected hconnect.pending rfl).1]
  exact fun hread ↦ nomatch List.mem_singleton.1 hread

/-- Nothing is lost of a stream whose reads are cut at the end of the head. -/
theorem losesNothing_of_nil (hrun₀ : system.Run h₀ m₀) (hconnect : Connects head [] h₀ m₀)
    (hrun : system.Run (h₀ ++ h) m) : LosesNothing head (h₀ ++ h) := by
  obtain ⟨-, hreads⟩ := clientReads_of_run hrun₀ (hconnect.past hrun₀) hrun
  refine ⟨(tunnelReads .clientToRemote (h₀ ++ h)).flatten, ?_, (carrying_of_run hrun _).ordered⟩
  rw [clientBytes, hreads, hconnect.reads, List.append_nil]

/-- An operation that starts others does so. -/
theorem exists_move {ops : List Operation} (hrun : system.Run h m) (hl : l.operation ∈ m.pending)
    (haborts : ¬ Aborts m l) (he : effectOf m l = .proceed ops) :
    ∃ m', system.Run (h ++ [⟨m, l, m'⟩]) m' ∧
      m'.pending = m.pending.erase l.operation ++ ops ∧ m'.tx.client = m.tx.client := by
  obtain ⟨m', hstep⟩ := (control_of_run hrun).exists_step hl haborts
  obtain ⟨notes, -, happlied⟩ := (control_of_run hrun).applied hstep he
  exact ⟨m', hrun.move hstep, happlied.pending, happlied.client⟩

theorem not_stepFails {ops : List Operation} (he : effectOf m l = .proceed ops)
    (hops : ops.any Operation.refuses = false) : ¬ StepFails ⟨m, l, m'⟩ := by
  rintro ⟨-, hfails⟩
  rw [failure_of_proceed he, hops] at hfails
  exact absurd hfails Bool.false_ne_true

/-- **A tunnel can be established.** -/
theorem exists_tunnel (hrun₀ : system.Run h₀ m₀) (hop : .resolve .tunnel ∈ m₀.pending) :
    ∃ h m, system.Run (h₀ ++ h) m ∧ (∀ t ∈ h, ¬ StepFails t) ∧
      .tunnelRead .clientToRemote ∈ m.pending ∧ m.tx.client ≠ none ∧
      tunnelReads .clientToRemote (h₀ ++ h) = [] := by
  obtain ⟨hp₀, hc₀, -⟩ := (control_of_run hrun₀).stage.expected hop rfl
  have he₁ : effectOf m₀ ⟨.resolve .tunnel, {}⟩ = .proceed [.connect .tunnel] := rfl
  obtain ⟨m₁, hrun₁, hp₁, hc₁⟩ := exists_move hrun₀ hop (fun h ↦ h.2) he₁
  have hop₁ : .connect .tunnel ∈ m₁.pending := by simp [hp₁]
  have he₂ : effectOf m₁ ⟨.connect .tunnel, {}⟩ =
      .proceed [.connectReply {} true (connectReplyText true)] := rfl
  obtain ⟨m₂, hrun₂, hp₂, hc₂⟩ := exists_move hrun₁ hop₁ (fun h ↦ h.2) he₂
  have hop₂ : .connectReply {} true (connectReplyText true) ∈ m₂.pending := by simp [hp₂]
  have he₃ : effectOf m₂ ⟨.connectReply {} true (connectReplyText true), {}⟩ =
      .proceed [.tunnelRead .clientToRemote, .tunnelRead .remoteToClient] := rfl
  obtain ⟨m₃, hrun₃, hp₃, hc₃⟩ := exists_move hrun₂ hop₂ (fun h ↦ h.2) he₃
  rw [List.append_assoc, List.append_assoc] at hrun₃
  have hnone : tunnelReads .clientToRemote h₀ = [] :=
    ((carrying_of_run hrun₀ .clientToRemote).pending _ hop).2
  refine ⟨_, m₃, hrun₃, ?_, by simp [hp₃], by simp [hc₃, hc₂, hc₁, hc₀], ?_⟩
  · simp only [List.cons_append, List.nil_append, List.forall_mem_cons, List.not_mem_nil,
      false_implies, implies_true, and_true]
    exact ⟨not_stepFails he₁ rfl, not_stepFails he₂ rfl, not_stepFails he₃ rfl⟩
  · rw [tunnelReads, List.filterMap_append, ← tunnelReads, hnone]
    rfl

/-- A byte from the client. -/
def byteRead (b : UInt8) : Label := ⟨.tunnelRead .clientToRemote, { data := [b] }⟩

/-- The byte is written to the remote. -/
def byteWrite (b : UInt8) : Label := ⟨.tunnelWrite .clientToRemote [b], { written := 1 }⟩

/-- **A tunnel can deliver any byte first.** -/
theorem exists_delivery (hrun₀ : system.Run h₀ m₀) (hop : .resolve .tunnel ∈ m₀.pending)
    (b : UInt8) :
    ∃ h m, system.Run (h₀ ++ h) m ∧ (∀ t ∈ h, ¬ StepFails t) ∧
      (delivered .clientToRemote (h₀ ++ h)).flatten = [b] ∧
      (tunnelReads .clientToRemote (h₀ ++ h)).flatten = [b] := by
  obtain ⟨h₁, m₁, hrun₁, hgood₁, hop₁, hc₁, hreads₁⟩ := exists_tunnel hrun₀ hop
  have he₁ : effectOf m₁ (byteRead b) = .proceed [.tunnelWrite .clientToRemote [b]] := by
    simp [byteRead, effectOf, hc₁, ErrorCode.eof, ErrorCode.isError]
  obtain ⟨m₂, hrun₂, hp₂, hc₂⟩ := exists_move hrun₁ hop₁ (fun h ↦ h.2) he₁
  have hop₂ : .tunnelWrite .clientToRemote [b] ∈ m₂.pending := by simp [hp₂]
  have he₂ : effectOf m₂ (byteWrite b) = .proceed [.tunnelRead .clientToRemote] := by
    simp [byteWrite, effectOf, hc₂, hc₁, ErrorCode.isError]
  obtain ⟨m₃, hrun₃, hp₃, -⟩ := exists_move hrun₂ hop₂ (fun h ↦ h.2) he₂
  have hop₃ : .tunnelRead .clientToRemote ∈ m₃.pending := by simp [hp₃]
  have hread := (carried_append_of_read (h := h₀ ++ h₁) (t := ⟨m₁, byteRead b, m₂⟩) rfl).1
  have hwrite := (carried_append_of_write (h := h₀ ++ h₁ ++ [⟨m₁, byteRead b, m₂⟩])
    (t := ⟨m₂, byteWrite b, m₃⟩) rfl).1
  -- While the direction reads, all that it has read has been delivered.
  have hall := (carrying_of_run hrun₃ .clientToRemote).pending _ hop₃ rfl
  rw [hwrite, hread, hreads₁] at hall
  refine ⟨h₁ ++ ([⟨m₁, byteRead b, m₂⟩] ++ [⟨m₂, byteWrite b, m₃⟩]), m₃, ?_, ?_, ?_, ?_⟩
  · rwa [← List.append_assoc, ← List.append_assoc]
  · refine List.forall_mem_append.2 ⟨hgood₁, List.forall_mem_append.2 ⟨?_, ?_⟩⟩ <;>
      rw [List.forall_mem_singleton]
    · exact not_stepFails he₁ rfl
    · exact not_stepFails he₂ rfl
  · rw [← List.append_assoc, ← List.append_assoc, hall]
    rfl
  · rw [← List.append_assoc, ← List.append_assoc, hwrite, hread, hreads₁]
    rfl

/-- **When the tunnel loses nothing**: the reads of the request end with its head. -/
theorem losesNothing_iff (hrun₀ : system.Run h₀ m₀) (hconnect : Connects head surplus h₀ m₀) :
    (∀ h m, system.Run (h₀ ++ h) m → (∀ t ∈ h, ¬ StepFails t) → LosesNothing head (h₀ ++ h)) ↔
      surplus = [] := by
  refine ⟨fun hall ↦ ?_, ?_⟩
  · cases surplus with
    | nil => rfl
    | cons a surplus =>
      -- The first byte delivered is one that does not begin the surplus.
      obtain ⟨h, m, hrun, hgood, hdelivered, hreads⟩ :=
        exists_delivery hrun₀ hconnect.pending (a + 1)
      obtain ⟨after, hafter, hpre⟩ := hall h m hrun hgood
      have hclient := (clientReads_of_run hrun₀ (hconnect.past hrun₀) hrun).2
      rw [clientBytes, hclient, hconnect.reads, List.append_assoc] at hafter
      obtain rfl := List.append_cancel_left hafter
      rw [hdelivered] at hpre
      have hfirst : a + 1 = a := (List.cons_prefix_cons.1 hpre).1
      exact absurd hfirst (by simp)
  · rintro rfl h m hrun -
    exact losesNothing_of_nil hrun₀ hconnect hrun

/-- The head of a `CONNECT`. -/
def connectHead : Head where
  start := .request
    { method := asciiBytes "CONNECT"
      uri := asciiBytes "a:1"
      major := asciiBytes "1"
      minor := asciiBytes "1" }
  lines := []

theorem connectHead_wellFormed : connectHead.WellFormed .request :=
  ⟨⟨rfl, by decide, by decide, by decide, by decide, by decide, by decide, by decide⟩, trivial⟩

/-- A request that is read alone: its tunnel loses nothing. -/
theorem connectAlone_losesNothing :
    ∃ h₀ m₀, Connects connectHead [] h₀ m₀ ∧
      ∀ h m, system.Run (h₀ ++ h) m → (∀ t ∈ h, ¬ StepFails t) →
        LosesNothing connectHead (h₀ ++ h) := by
  obtain ⟨h₀, m₀, hrun₀, hop, hreads⟩ := exists_run_of_follow
    [⟨.readClientRequest, { data := asciiBytes "CONNECT a:1 HT" }⟩,
      ⟨.readClientRequest, { data := asciiBytes "TP/1.1\r\n\r\n" }⟩]
    (fun h m ↦ .resolve .tunnel ∈ m.pending ∧
      (clientReads h).flatten = asciiBytes "CONNECT a:1 HTTP/1.1\r\n\r\n") (by decide +kernel)
  have hconnect : Connects connectHead [] h₀ m₀ :=
    ⟨connectHead_wellFormed, by decide, by rw [hreads]; decide, hop⟩
  exact ⟨h₀, m₀, hconnect, (losesNothing_iff hrun₀ hconnect).2 rfl⟩

/-- A client that does not wait for the reply: what came with its request never reaches the
remote. -/
theorem eagerClient_losesBytes :
    ∃ h m, system.Run h m ∧ (∀ t ∈ h, ¬ StepFails t) ∧
      clientReads h = [connectHead.render ++ asciiBytes "hello"] ∧
      tunnelReads .clientToRemote h = [asciiBytes "world"] ∧ ¬ LosesNothing connectHead h := by
  obtain ⟨h, m, hrun, hgood, hclient, hreads, hdelivered⟩ := exists_run_of_follow
    [⟨.readClientRequest, { data := connectHead.render ++ asciiBytes "hello" }⟩,
      ⟨.resolve .tunnel, {}⟩, ⟨.connect .tunnel, {}⟩,
      ⟨.connectReply {} true (connectReplyText true), { written := 50 }⟩,
      ⟨.tunnelRead .clientToRemote, { data := asciiBytes "world" }⟩,
      ⟨.tunnelWrite .clientToRemote (asciiBytes "world"), { written := 5 }⟩]
    (fun h _ ↦ (∀ t ∈ h, ¬ StepFails t) ∧
      clientReads h = [connectHead.render ++ asciiBytes "hello"] ∧
      tunnelReads .clientToRemote h = [asciiBytes "world"] ∧
      (delivered .clientToRemote h).flatten = asciiBytes "world") (by decide +kernel)
  refine ⟨h, m, hrun, hgood, hclient, hreads, ?_⟩
  rintro ⟨after, hafter, hpre⟩
  rw [clientBytes, hclient, hreads, List.flatten_singleton, List.append_assoc] at hafter
  obtain rfl := List.append_cancel_left hafter
  rw [hdelivered] at hpre
  exact absurd hpre (by decide)

end Transaction

end Amanuensis
