import Mm1.Lib.Transition
import Mm1.Multinode.RouteRun
import Mm1.Multinode.Writer

/-!
# The way of a message

A message changes its form on its way: an envelope that an actor sends, an envelope in the mailbox
of the ingress of a subnet or of the gateway of a connection, a PDU, and an envelope again on the
node of the peer, with its own message or with a body that this node cannot read (`Forward`).

What a step reads apart from the message (route tables, declared types, codecs, which mailboxes
accept what) belongs to the step, so that a run is any run over any number of nodes whose tables
agree in nothing and change all the time.

* `step_cases`: a step takes one off the TTL, or drops or delivers the message;
* `written_le_ttl`: so the message is written to connections at most as often as its first TTL
  says.
-/

namespace Mm1

open Fallible Transition Option RouteRegistry

/-! ### Sending -/

/-- What an actor sends: a message of a type that the node knows, or a `Forward`. -/
inductive AnyMessage (M : Type)
  | known (message : M)
  | forward (f : Forward)

/-- `send_to` of the runtime: the answer for an address and a priority. -/
abbrev SendTo := Address → Bool → Except SendErrorKind Unit

/-- The part that `do_send` and `do_forward` share; the answer is the header of the envelope in the
mailbox. -/
def dispatch (sendTo : SendTo) (dst : Address) (header : EnvelopeHeader) :
    Except SendErrorKind EnvelopeHeader :=
  match checkedPred header.ttl with
  | none => .error .ttlExhausted
  | some ttl => do
    sendTo dst header.priority
    return { header with ttl := ttl }

/-- `do_send`. -/
def doSend (sendTo : SendTo) (header : EnvelopeHeader) : Except SendErrorKind EnvelopeHeader :=
  dispatch sendTo header.dst header

/-- `do_forward`. -/
def doForward (sendTo : SendTo) (dst : Address) (header : EnvelopeHeader) :
    Except SendErrorKind EnvelopeHeader :=
  dispatch sendTo dst header

variable {sendTo : SendTo}

private theorem ttl_of_dispatch {dst : Address} {header header' : EnvelopeHeader}
    (h : dispatch sendTo dst header = .ok header') : header'.ttl.toNat + 1 = header.ttl.toNat := by
  rw [dispatch] at h
  split at h
  · contradiction
  · next ttl httl =>
    obtain ⟨_, -, h⟩ := exists_of_bind_eq_ok h
    obtain rfl : _ = header' := Except.ok.inj h
    exact toNat_of_checkedPred httl

/-! ### The ingress of a subnet -/

/-- What the ingress of a subnet reads. -/
structure Ingress (TypeId : Type) where
  env : Env
  routeRegistry : RouteRegistry
  tidCache : TypeId → Option LocalTypeKey

section Steps

variable {TypeId M : Type} (tid : M → TypeId)

/-- The key of the type of a message; `answer` is what the manager says of a type that is not in
the cache, if it answers. -/
def Ingress.messageTypeKey (i : Ingress TypeId) (answer : Option (Option LocalTypeKey)) :
    AnyMessage M → Option LocalTypeKey
  | .forward f => some f.localTypeKey
  | .known message =>
    match i.tidCache (tid message) with
    | some key => some key
    | none => answer.join

/-- `process_subnet_inbound`: where the message is forwarded to, and its header there. In all other
cases it is dropped, whether the ingress goes on or ends. -/
def processSubnetInbound (i : Ingress TypeId) (answer : Option (Option LocalTypeKey))
    (sendTo : SendTo) (header : EnvelopeHeader) (message : AnyMessage M) :
    Option (Address × EnvelopeHeader) := do
  let key ← i.messageTypeKey tid answer message
  match i.routeRegistry.findRoute i.env key header.dst with
  | .ok (.ok (some gw, _)) =>
    match doForward sendTo gw header with
    | .ok header' => some (gw, header')
    | .error _ => none
  | _ => none

/-! ### The two ends of a connection -/

/-- `handle_forward_actor_message`. -/
def handleForwardActorMessage (w : OutputWriter TypeId M) (answer : Option MessageName)
    (header : EnvelopeHeader) : AnyMessage M → Except WriteError (OutputWriter TypeId M)
  | .forward f => w.writeOpaqueMessage header f answer
  | .known message => w.writeKnownMessage tid header message

/-- The messages that are read from what was written between two states of the writer. -/
def transmitted (w w' : OutputWriter TypeId M) : List ReceivedMessage :=
  (readLoop (w'.ioW.drop w.ioW.length)).1.filterMap Pdu.received

/-- What the connection of the peer reads. -/
structure Inbound (M : Type) where
  typeKeyMap : ForeignTypeKey → Option LocalTypeKey
  /-- a `BTreeSet` -/
  localSubnets : List (AddressRange × Unit)
  inboundByLkey : LocalTypeKey → Option (List UInt8 → Option M)
  /-- the next number of an envelope, and the trace of the task -/
  seqNo : U64
  traceId : TraceId

/-- The header of a message that was received: that of a new envelope, with everything that the PDU
says put into it. -/
def Inbound.header (c : Inbound M) (m : ReceivedMessage) : EnvelopeHeader :=
  (EnvelopeHeader.toAddress m.dstAddress c.seqNo c.traceId).withTraceId m.traceId |>.withNo
    m.originSeqNo |>.withTtl m.ttl |>.withPriority m.priority

/-- The message is decoded on the node it is for, and passed on as it is on any other. -/
def Inbound.message (c : Inbound M) (key : LocalTypeKey) (m : ReceivedMessage) :
    Option (AnyMessage M) :=
  if (OrderedMap.entry AddressRange.cmp (.ofAddress m.dstAddress) c.localSubnets).isSome then do
    let decode ← c.inboundByLkey key
    let message ← decode m.body
    return .known message
  else some (.forward ⟨key, m.body⟩)

/-- The handler of `ReceivedMessage`: the header and the message in the mailbox that it is sent
to. -/
def handleReceivedMessage (c : Inbound M) (sendTo : SendTo) (m : ReceivedMessage) :
    Option (EnvelopeHeader × AnyMessage M) := do
  let key ← c.typeKeyMap m.foreignTypeKey
  let message ← c.message key m
  match doSend sendTo (c.header m) with
  | .ok header => some (header, message)
  | .error _ => none

end Steps

/-! ### The journey -/

/-- Where a message is, and in which form. -/
inductive Form (Node M : Type)
  /-- an actor is about to send it -/
  | sending (node : Node) (header : EnvelopeHeader) (message : AnyMessage M)
  /-- in the mailbox of an address -/
  | inbox (node : Node) (dst : Address) (header : EnvelopeHeader) (message : AnyMessage M)
  /-- read by the connection of a node -/
  | received (node : Node) (m : ReceivedMessage)
  | delivered (node : Node) (dst : Address) (header : EnvelopeHeader) (message : AnyMessage M)
  | dropped

/-- A message on its way, and how often it has been written to a connection. -/
structure Journey (Node M : Type) where
  form : Form Node M
  written : ℕ

/-- The TTL that a form carries. -/
def Form.ttl {Node M : Type} : Form Node M → ℕ
  | sending _ header _ => header.ttl.toNat
  | inbox _ _ header _ => header.ttl.toNat
  | received _ m => m.ttl.toNat
  | delivered _ _ header _ => header.ttl.toNat
  | dropped => 0

/-- The steps that may still come. -/
def Form.stepsLeft {Node M : Type} : Form Node M → ℕ
  | delivered .. => 0
  | dropped => 0
  | form => form.ttl + 1

namespace Journey

variable {Node TypeId M : Type}

/-- A step, with what it reads. -/
inductive Act (Node TypeId M : Type)
  | send (sendTo : SendTo)
  /-- the mailbox is that of the ingress of a subnet -/
  | ingress (i : Ingress TypeId) (answer : Option (Option LocalTypeKey)) (sendTo : SendTo)
  /-- the mailbox is that of the gateway of a connection -/
  | gateway (peer : Node) (w : OutputWriter TypeId M) (answer : Option MessageName)
  | receive (c : Inbound M) (sendTo : SendTo)
  /-- the mailbox is that of any other actor -/
  | deliver

/-- A message that an actor is about to send. -/
def start (node : Node) (header : EnvelopeHeader) (message : AnyMessage M) : Journey Node M :=
  ⟨.sending node header message, 0⟩

variable (tid : M → TypeId)

/-- The steps of a message. -/
def step : Journey Node M → Act Node TypeId M → Option (Journey Node M)
  | ⟨.sending node header message, n⟩, .send sendTo =>
    some <| match doSend sendTo header with
      | .ok header' => ⟨.inbox node header.dst header' message, n⟩
      | .error _ => ⟨.dropped, n⟩
  | ⟨.inbox node _ header message, n⟩, .ingress i answer sendTo =>
    some <| match processSubnetInbound tid i answer sendTo header message with
      | some (gw, header') => ⟨.inbox node gw header' message, n⟩
      | none => ⟨.dropped, n⟩
  | ⟨.inbox _ _ header message, n⟩, .gateway peer w answer =>
    some <| match handleForwardActorMessage tid w answer header message with
      | .ok w' =>
        match transmitted w w' with
        | [] => ⟨.dropped, n⟩
        | m :: ms => ⟨.received peer m, n + (m :: ms).length⟩
      | .error _ => ⟨.dropped, n⟩
  | ⟨.received node m, n⟩, .receive c sendTo =>
    some <| match handleReceivedMessage c sendTo m with
      | some (header, message) => ⟨.inbox node m.dstAddress header message, n⟩
      | none => ⟨.dropped, n⟩
  | ⟨.inbox node dst header message, n⟩, .deliver =>
    some ⟨.delivered node dst header message, n⟩
  | _, _ => none

end Journey

/-! ### What a step does to the TTL -/

section Spec

variable {Node TypeId M : Type} {tid : M → TypeId} {message : AnyMessage M}
  {w w' : OutputWriter TypeId M}

private theorem ttl_of_processSubnetInbound {i : Ingress TypeId}
    {answer : Option (Option LocalTypeKey)} {header header' : EnvelopeHeader} {gw : Address}
    (h : processSubnetInbound tid i answer sendTo header message = some (gw, header')) :
    header'.ttl.toNat + 1 = header.ttl.toNat := by
  obtain ⟨key, -, h⟩ := bind_eq_some_iff.mp h
  split at h
  · split at h
    · next hforward =>
      obtain ⟨-, rfl⟩ := Prod.mk.inj (some.inj h)
      exact ttl_of_dispatch hforward
    · contradiction
  · contradiction

private theorem OutputWriter.Wrote.transmitted_eq {pdus : List Pdu} (h : Wrote w pdus w') :
    transmitted w w' = pdus.filterMap Pdu.received := by
  rw [transmitted, h.ioW, List.drop_left, readLoop_flatMap_bytes h.fits]

private theorem filterMap_received_declaration (declared : List (LocalTypeKey × MessageName))
    (key : LocalTypeKey) (name : Option MessageName) :
    (OutputWriter.declaration declared key name).filterMap Pdu.received = [] := by
  rw [OutputWriter.declaration]
  split
  · rfl
  · cases name <;> rfl

/-- A gateway writes the message once, with one off its TTL, or not at all. -/
private theorem transmitted_of_handleForwardActorMessage {answer : Option MessageName}
    {header : EnvelopeHeader} (h : handleForwardActorMessage tid w answer header message = .ok w') :
    transmitted w w' = [] ∨
      ∃ m, transmitted w w' = [m] ∧ m.ttl.toNat + 1 = header.ttl.toNat := by
  have hpred : header.ttl ≠ 0 → (header.ttl - 1).toNat + 1 = header.ttl.toNat := fun hne =>
    toNat_of_checkedPred (checkedPred_eq_some_iff.mpr ⟨hne, rfl⟩)
  cases message with
  | known message =>
    have hexec : w.exec tid (.knownMessage header message) = .ok w' := h
    have hwrote := OutputWriter.exec_spec tid hexec
    rw [hwrote.transmitted_eq, OutputWriter.Op.pdus]
    split_ifs with hzero
    · exact .inl rfl
    · split
      · exact .inl rfl
      · next key codec _ =>
        cases codec message with
        | none => exact .inl rfl
        | some body => exact .inr ⟨_, rfl, hpred hzero⟩
  | forward f =>
    have hexec : w.exec tid (.opaqueMessage header f answer) = .ok w' := h
    have hwrote := OutputWriter.exec_spec tid hexec
    rw [hwrote.transmitted_eq, OutputWriter.Op.pdus]
    split_ifs with hzero
    · exact .inl rfl
    · rw [List.filterMap_append, filterMap_received_declaration]
      exact .inr ⟨_, rfl, hpred hzero⟩

private theorem ttl_of_handleReceivedMessage {c : Inbound M} {m : ReceivedMessage}
    {header : EnvelopeHeader} (h : handleReceivedMessage c sendTo m = some (header, message)) :
    header.ttl.toNat + 1 = m.ttl.toNat := by
  obtain ⟨key, -, h⟩ := bind_eq_some_iff.mp h
  obtain ⟨message', -, h⟩ := bind_eq_some_iff.mp h
  split at h
  · next hsend =>
    obtain ⟨rfl, -⟩ := Prod.mk.inj (some.inj h)
    -- the header is rebuilt with the TTL of the PDU, not with the default one
    exact ttl_of_dispatch hsend
  · contradiction

namespace Journey

variable {s s' : Journey Node M} {a : Act Node TypeId M}

/-- **What a step can do**: drop the message, take one off its TTL (and then write it at most
once), or deliver it. -/
theorem step_cases (h : step tid s a = some s') :
    (s'.form = .dropped ∧ s'.written = s.written) ∨
      (s'.form.ttl + 1 = s.form.ttl ∧ s'.written ≤ s.written + 1) ∨
        a = .deliver ∧ ∃ node dst header message, s.form = .inbox node dst header message ∧
          s' = ⟨.delivered node dst header message, s.written⟩ := by
  obtain ⟨form, n⟩ := s
  cases form with
  | sending node header message =>
    cases a with
    | send sendTo =>
      obtain rfl := some.inj h
      cases hsend : doSend sendTo header with
      | error e => exact .inl ⟨rfl, rfl⟩
      | ok header' => exact .inr (.inl ⟨ttl_of_dispatch hsend, Nat.le_succ _⟩)
    | _ => contradiction
  | inbox node dst header message =>
    cases a with
    | ingress i answer sendTo =>
      obtain rfl := some.inj h
      cases hforward : processSubnetInbound tid i answer sendTo header message with
      | none => exact .inl ⟨rfl, rfl⟩
      | some p => exact .inr (.inl ⟨ttl_of_processSubnetInbound hforward, Nat.le_succ _⟩)
    | gateway peer w answer =>
      obtain rfl := some.inj h
      cases hwrite : handleForwardActorMessage tid w answer header message with
      | error e => exact .inl ⟨rfl, rfl⟩
      | ok w' =>
        simp only
        obtain hnone | ⟨m, hm, httl⟩ := transmitted_of_handleForwardActorMessage hwrite
        · rw [hnone]
          exact .inl ⟨rfl, rfl⟩
        · rw [hm]
          exact .inr (.inl ⟨httl, le_rfl⟩)
    | deliver =>
      obtain rfl := some.inj h
      exact .inr (.inr ⟨rfl, node, dst, header, message, rfl, rfl⟩)
    | _ => contradiction
  | received node m =>
    cases a with
    | receive c sendTo =>
      obtain rfl := some.inj h
      cases hsend : handleReceivedMessage c sendTo m with
      | none => exact .inl ⟨rfl, rfl⟩
      | some p => exact .inr (.inl ⟨ttl_of_handleReceivedMessage hsend, Nat.le_succ _⟩)
    | _ => contradiction
  | delivered node dst header message | dropped => contradiction

private theorem stepsLeft_eq (h : step tid s a = some s') : s.form.stepsLeft = s.form.ttl + 1 := by
  obtain ⟨form, n⟩ := s
  cases form with
  | delivered | dropped => contradiction
  | _ => rfl

private theorem stepsLeft_le (form : Form Node M) : form.stepsLeft ≤ form.ttl + 1 := by
  cases form with
  | delivered | dropped => exact Nat.zero_le _
  | _ => exact le_rfl

/-- What a step does to the bounds of a run. -/
private theorem bounds_of_step (h : step tid s a = some s') :
    s'.form.stepsLeft < s.form.stepsLeft ∧
      s'.written + s'.form.ttl ≤ s.written + s.form.ttl := by
  rw [stepsLeft_eq h]
  obtain ⟨hform, hn⟩ | ⟨httl, hn⟩ | ⟨-, node, dst, header, message, hform, rfl⟩ := step_cases h
  · rw [hform, hn]
    exact ⟨Nat.succ_pos _, Nat.le_add_right _ _⟩
  · have hle := stepsLeft_le s'.form
    omega
  · rw [hform]
    exact ⟨Nat.succ_pos _, le_rfl⟩

/-- The bounds, over a run. -/
private theorem bounds_of_exec {acts : List (Act Node TypeId M)}
    (h : exec (step tid) (fun _ _ => True) s acts = some s') :
    acts.length + s'.form.stepsLeft ≤ s.form.stepsLeft ∧
      s'.written + s'.form.ttl ≤ s.written + s.form.ttl := by
  induction acts generalizing s with
  | nil =>
    obtain rfl : s = s' := some.inj h
    exact ⟨(Nat.zero_add _).le, le_rfl⟩
  | cons a acts ih =>
    rw [exec, if_pos trivial] at h
    obtain ⟨s₁, hs, h⟩ := bind_eq_some_iff.mp h
    obtain ⟨hleft, hwritten⟩ := bounds_of_step hs
    obtain ⟨hleft', hwritten'⟩ := ih h
    rw [List.length_cons]
    omega

/-- **A message is written at most as often as its first TTL says**, over any number of nodes,
whatever each step finds in the tables of its node. The run ends after so many steps and one more;
and each step takes one off the TTL, or drops the message, or delivers it as it is. -/
theorem written_le_ttl (tid : M → TypeId) {node : Node} {header : EnvelopeHeader}
    {message : AnyMessage M} {acts : List (Act Node TypeId M)}
    (h : exec (step tid) (fun _ _ => True) (start node header message) acts = some s) :
    s.written ≤ header.ttl.toNat ∧ acts.length ≤ header.ttl.toNat + 1 ∧
      ∀ a s', step tid s a = some s' →
        s'.form = .dropped ∨ s'.form.ttl < s.form.ttl ∨ a = .deliver ∧
          ∃ node dst header message, s.form = .inbox node dst header message ∧
            s'.form = .delivered node dst header message := by
  obtain ⟨hleft, hwritten⟩ := bounds_of_exec h
  have hstart : s.written + s.form.ttl ≤ header.ttl.toNat := hwritten.trans (Nat.zero_add _).le
  refine ⟨(Nat.le_add_right _ _).trans hstart, (Nat.le_add_right _ _).trans hleft, ?_⟩
  intro a s' hs
  obtain ⟨hform, -⟩ | ⟨httl, -⟩ | ⟨ha, node, dst, header, message, hform, rfl⟩ := step_cases hs
  · exact .inl hform
  · exact .inr (.inl (httl ▸ Nat.lt_succ_self _))
  · exact .inr (.inr ⟨ha, node, dst, header, message, hform, rfl⟩)

end Journey

end Spec

namespace Journey

/-- An ingress with one route, through the gateway `<0xa101>`. -/
def sampleIngress : Ingress Unit where
  env := plainEnv
  routeRegistry :=
    { routeEntries := [(0, ⟨sampleKey, netF1, some ⟨0xa101#64⟩, 1⟩)]
      byGw := [((some ⟨0xa101#64⟩, .ofNet netF1, sampleKey), 0)]
      byDst := [((.ofNet netF1, sampleKey, 1), [0])] }
  tidCache _ := some sampleKey

/-- A writer that has declared the type of the message. -/
def sampleWriter : OutputWriter Unit Unit where
  ioW := []
  declaredTypes := [(sampleKey, "a")]
  outboundByTypeId _ := some (sampleKey, fun _ => some [7])

/-- A connection on a node that the message is not for. -/
def sampleInbound : Inbound Unit where
  typeKeyMap := some
  localSubnets := []
  inboundByLkey _ := none
  seqNo := 0
  traceId := 0

/-- Two nodes that send a message back and forth. -/
def sampleLoop : List (Act Bool Unit Unit) :=
  [.send fun _ _ => .ok (), .ingress sampleIngress none fun _ _ => .ok (),
    .gateway true sampleWriter none, .receive sampleInbound fun _ _ => .ok (),
    .gateway false sampleWriter none, .receive sampleInbound fun _ _ => .ok ()]

/-- A message with TTL 5 is written twice and then dropped. -/
theorem written_le_ttl_of_loop :
    ∃ s : Journey Bool Unit, exec (step id) (fun _ _ => True)
        (start false ⟨⟨0xf000000000000101#64⟩, 5, false, 1, 2⟩ (.known ())) sampleLoop = some s ∧
      s.form = .dropped ∧ s.written = 2 ∧ s.written ≤ 5 := by
  obtain ⟨s, hrun, hform, hwritten⟩ : ∃ s : Journey Bool Unit,
      exec (step id) (fun _ _ => True)
        (start false ⟨⟨0xf000000000000101#64⟩, 5, false, 1, 2⟩ (.known ())) sampleLoop = some s ∧
      s.form = .dropped ∧ s.written = 2 := ⟨_, rfl, rfl, rfl⟩
  exact ⟨s, hrun, hform, hwritten, (written_le_ttl id hrun).1⟩

end Journey

end Mm1
