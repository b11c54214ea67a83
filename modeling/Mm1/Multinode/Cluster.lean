import Mm1.Multinode.MultipleProtocols
import Mm1.Multinode.Ttl

/-!
# What arrives is what was sent

The type of a message has a name, and each node has keys of its own for the names it has heard of.
A connection declares to its peer which name its keys stand for. The peer looks the name up, or
registers it if it does not know the type, and from then on takes one key for the other. A node that
only passes a message on knows the key and the bytes, and no more. So the bytes go through any
number of nodes, under one key after the other, until they are decoded by the codec of the last key.

Meanwhile protocols are registered and unregistered on all nodes, connections come and go, and
routes are announced for types that are declared on the way.

Each message carries along what it was when it was sent (`Origin`). No step looks at it.

* `Link`: one direction of a connection, with both its ends;
* `Cluster.step`: the steps of all nodes;
* `Inv`: all keys of a name, on all nodes and connections, stand for that name;
* `delivered_as_sent`: every run;
* `types_in_order`: no connection ends because of its peer's declarations.
-/

namespace Mm1

open Transition Fallible Option List Function ProtocolRegistry OutputWriter

/-! ### The tables of a connection -/

/-- What the codecs of the types do: `Known<T>::encode` and `Known<T>::decode`. -/
structure Codecs (TypeId M : Type) where
  tid : M → TypeId
  encode : TypeId → ErasedCodec M
  decode : TypeId → List UInt8 → Option M

/-- `collect` into a `HashMap`: the last pair of a key stays. -/
def collectMap {K V : Type} [BEq K] (l : List (K × V)) (k : K) : Option V := l.reverse.lookup k

namespace ProtocolResolved

variable {TypeId M : Type} {typeName : TypeId → MessageName}

/-- The codec that `find` finds for a name. -/
def codec? (p : ProtocolResolved typeName) (name : MessageName) :
    Option (ErasedCodecApi typeName) :=
  p.protocol.inboundTypes.find? fun c => c.name = name

/-- The keys of the outbound types. It is `none` if an `expect` fails. -/
def typeIds? (p : ProtocolResolved typeName) : Option (List (LocalTypeKey × TypeId)) :=
  p.outbound.mapM fun pair =>
    ((p.codec? pair.1).bind ErasedCodecApi.tid).map fun t => (pair.2, t)

end ProtocolResolved

/-- `outbound_by_type_id` -/
def Codecs.outboundByTypeId {TypeId M : Type} [DecidableEq TypeId] (codecs : Codecs TypeId M)
    (typeIds : List (LocalTypeKey × TypeId)) (t : TypeId) :
    Option (LocalTypeKey × ErasedCodec M) :=
  (collectMap (typeIds.map Prod.swap) t).map fun key => (key, codecs.encode t)

/-! ### One direction of a connection -/

/-- A message as it was sent. -/
structure Origin (M : Type) where
  header : EnvelopeHeader
  message : M

/-- One direction of a connection: what its writer has at one end, what is on the way, and what the
event loop at the other end has. -/
structure Link (Node TypeId M : Type) where
  src : Node
  dst : Node
  writer : OutputWriter TypeId M
  /-- the PDUs that have not been handled yet -/
  wire : List (Pdu × Option (Origin M))
  inboundByName : MessageName → Option LocalTypeKey
  inboundByLkey : LocalTypeKey → Option TypeId
  localSubnets : List (AddressRange × Unit)
  typeKeyMap : List (ForeignTypeKey × LocalTypeKey)

/-- How the event loop ends at a PDU. -/
inductive HandleError where
  /-- "duplicate type declaration" -/
  | duplicateDeclaration (key : ForeignTypeKey)
  /-- "unregistered f-key" -/
  | unregistered (key : ForeignTypeKey)
  /-- "no codec for l-key", or the codec fails -/
  | notDecoded
  /-- `register_opaque_message` fails, or is not answered in time -/
  | registerOpaqueMessage (e : AskErrorKind)
  /-- the manager is gone -/
  | manager (panic : RegistryPanic)
  /-- the metric is `255` -/
  | overflow
  /-- the manager is not told of a route -/
  | tell (e : SendErrorKind)

/-- What a handler does not decide: the number of its next envelope, the trace of its task, and what
becomes of what it sends. A request that is not answered in time is one that the manager may still
serve, with a step of its own. -/
structure Ambient where
  seqNo : U64
  traceId : TraceId
  sendTo : SendTo
  /-- `ask` of the manager, with `ASK_TIMEOUT` -/
  ask : Except AskErrorKind Unit
  /-- `tell` to the manager -/
  tell : Except SendErrorKind Unit
  overflowChecks : Bool

namespace Link

variable {Node TypeId M : Type} {typeName : TypeId → MessageName} [DecidableEq TypeId]

/-- The writer does something, and what its peer finds in the bytes is on the way. -/
def write (codecs : Codecs TypeId M) (l : Link Node TypeId M) (origin : Option (Origin M))
    (op : Op M) : Except WriteError (Link Node TypeId M) := do
  let writer ← exec codecs.tid l.writer op
  let pdus := (readLoop (writer.ioW.drop l.writer.ioW.length)).1
  return { l with writer, wire := l.wire ++ pdus.map fun pdu => (pdu, origin) }

/-- The tables at both ends, from the protocols and the keys of their types. -/
def start (codecs : Codecs TypeId M) (src dst : Node) (outbound : List (LocalTypeKey × TypeId))
    (inbound : List (MessageName × LocalTypeKey)) (inboundIds : List (LocalTypeKey × TypeId))
    (localSubnets : List (AddressRange × Unit)) : Link Node TypeId M where
  src
  dst
  writer := .new (codecs.outboundByTypeId outbound)
  wire := []
  inboundByName := collectMap inbound
  inboundByLkey := collectMap inboundIds
  localSubnets
  typeKeyMap := []

/-- `run` up to the event loop, at both ends: the types of the protocols are declared. -/
def connect (codecs : Codecs TypeId M) (src dst : Node) (ps qs : List (ProtocolResolved typeName))
    (localSubnets : List (AddressRange × Unit)) : Option (Link Node TypeId M) := do
  let p ← (reduce ps).toOption
  let q ← (reduce qs).toOption
  let outboundIds ← p.typeIds?
  let inboundIds ← q.typeIds?
  p.outbound.foldlM (fun l pair => (l.write codecs none (.ofOutbound pair)).toOption)
    (start codecs src dst outboundIds q.inbound inboundIds localSubnets)

/-- The handler of `DeclareType` -/
def onDeclareType (slots : Roster.Slots LocalTypeKey) (env : Ambient) (l : Link Node TypeId M)
    (r : ProtocolRegistry typeName) (key : ForeignTypeKey) (name : MessageName) :
    Except HandleError (Link Node TypeId M × ProtocolRegistry typeName) :=
  match l.typeKeyMap.lookup key with
  | some _ => .error (.duplicateDeclaration key)
  | none =>
    match l.inboundByName name with
    | some k => .ok ({ l with typeKeyMap := l.typeKeyMap ++ [(key, k)] }, r)
    | none => do
      env.ask.mapError .registerOpaqueMessage
      let (k, r) ← (r.registerMessage slots (.nameOnly name)).mapError .manager
      return ({ l with typeKeyMap := l.typeKeyMap ++ [(key, k)] }, r)

/-- `type_key_map.get(..)` -/
def typeKey (l : Link Node TypeId M) (key : ForeignTypeKey) : Except HandleError LocalTypeKey :=
  match l.typeKeyMap.lookup key with
  | none => .error (.unregistered key)
  | some k => .ok k

/-- The handler of `SubnetDistance`: the type of the route that the manager is told. -/
def onSubnetDistance (env : Ambient) (l : Link Node TypeId M)
    (h : SubnetDistance ForeignTypeKey) : Except HandleError LocalTypeKey := do
  let key ← l.typeKey h.typeHandle
  match h.metric.mapM (RouteMetric.addOne env.overflowChecks) with
  | none => .error .overflow
  | some _ =>
    env.tell.mapError .tell
    return key

/-- What the handler of `ReceivedMessage` reads. -/
def inbound (codecs : Codecs TypeId M) (l : Link Node TypeId M) (env : Ambient) : Inbound M where
  typeKeyMap key := l.typeKeyMap.lookup key
  localSubnets := l.localSubnets
  inboundByLkey k := (l.inboundByLkey k).map codecs.decode
  seqNo := env.seqNo
  traceId := env.traceId

/-- The handler of `ReceivedMessage`, up to `send`. -/
def onReceivedMessage (codecs : Codecs TypeId M) (l : Link Node TypeId M) (env : Ambient)
    (m : ReceivedMessage) : Except HandleError (EnvelopeHeader × AnyMessage M) := do
  let key ← l.typeKey m.foreignTypeKey
  let c := l.inbound codecs env
  match c.message key m with
  | none => .error .notDecoded
  | some message => return (c.header m, message)

end Link

/-! ### All nodes -/

/-- A message in a mailbox from which it is passed on. -/
structure Mail (Node M : Type) where
  node : Node
  header : EnvelopeHeader
  message : AnyMessage M
  origin : Origin M

/-- A message that was decoded on its node. -/
structure Delivery (Node M : Type) where
  node : Node
  header : EnvelopeHeader
  message : M
  origin : Origin M

/-- The nodes, and the connections between them. -/
structure Cluster (Node M : Type) {TypeId : Type} (typeName : TypeId → MessageName) where
  registry : Node → ProtocolRegistry typeName
  /-- the protocols that the manager has resolved -/
  resolved : Node → List (ProtocolResolved typeName)
  /-- the types of the routes that the manager tells its subscribers -/
  routes : Node → List LocalTypeKey
  links : List (Link Node TypeId M)
  mail : List (Mail Node M)
  delivered : List (Delivery Node M)

namespace Cluster

variable {Node TypeId M : Type} {typeName : TypeId → MessageName}

/-- No node has heard of anything. -/
def init : Cluster Node M typeName where
  registry _ := .empty
  resolved _ := []
  routes _ := []
  links := []
  mail := []
  delivered := []

/-- A step. -/
inductive Act (Node M : Type) {TypeId : Type} (typeName : TypeId → MessageName) where
  /-- the manager of a node registers something -/
  | register (n : Node) (call : ProtocolRegistry.Call typeName)
  /-- the manager of a node resolves a protocol -/
  | resolve (n : Node) (protocol : Protocol typeName)
  /-- a connection, with protocols that have been resolved at both ends -/
  | connect (src dst : Node) (ps qs : List ℕ) (localSubnets : List (AddressRange × Unit))
  /-- a connection ends: its stream, its timer, its table of routes, or someone else ends it -/
  | close (i : ℕ)
  /-- an actor sends a message -/
  | send (n : Node) (header : EnvelopeHeader) (m : M)
  /-- a message goes on to another mailbox of the node -/
  | pass (j : ℕ) (dst : Address) (sendTo : SendTo)
  | keepAlive (i : ℕ)
  /-- a connection is told a route -/
  | announce (i : ℕ) (route : SetRoute) (ask : Except AskErrorKind Unit)
  /-- a gateway has got a message -/
  | forward (i j : ℕ) (ask : Except AskErrorKind Unit)
  /-- a connection handles the next PDU -/
  | handle (i : ℕ) (env : Ambient)

variable [DecidableEq Node] [DecidableEq TypeId] (codecs : Codecs TypeId M)
  (slots : Roster.Slots LocalTypeKey)

/-- A connection goes on, or ends. -/
def setLink (s : Cluster Node M typeName) (i : ℕ) :
    Except WriteError (Link Node TypeId M) → Cluster Node M typeName
  | .ok l => { s with links := s.links.set i l }
  | .error _ => { s with links := s.links.eraseIdx i }

/-- What the manager answers to `GetMessageName`, if it answers. -/
def messageName (s : Cluster Node M typeName) (ask : Except AskErrorKind Unit) (n : Node)
    (key : LocalTypeKey) : Option MessageName := do
  ask.toOption
  ((s.registry n).messageNameByKey key).toOption

/-- The operation with which a gateway writes a message. -/
def forwardOp (s : Cluster Node M typeName) (ask : Except AskErrorKind Unit) (m : Mail Node M) :
    Op M :=
  match m.message with
  | .known message => .knownMessage m.header message
  | .forward f => .opaqueMessage m.header f (s.messageName ask m.node f.localTypeKey)

/-- A message that was received is sent: it is there, or goes on. -/
def arrive (s : Cluster Node M typeName) (n : Node) (sendTo : SendTo) (header : EnvelopeHeader)
    (message : AnyMessage M) (origin : Option (Origin M)) : Cluster Node M typeName :=
  match doSend sendTo header, origin with
  | .ok header, some origin =>
    match message with
    | .known m => { s with delivered := s.delivered ++ [⟨n, header, m, origin⟩] }
    | .forward _ => { s with mail := s.mail ++ [⟨n, header, message, origin⟩] }
  | _, _ => s

/-- `handle_connection_actor_message`, of what was read. -/
def handlePdu (s : Cluster Node M typeName) (i : ℕ) (l : Link Node TypeId M)
    (origin : Option (Origin M)) (env : Ambient) :
    Pdu → Except HandleError (Cluster Node M typeName)
  | .keepAlive => return { s with links := s.links.set i l }
  | .declareType key name => do
    let (l, r) ← l.onDeclareType slots env (s.registry l.dst) key name
    return { s with
      links := s.links.set i l
      registry := update s.registry l.dst r }
  | .subnetDistance h => do
    let key ← l.onSubnetDistance env h
    return { s with
      links := s.links.set i l
      routes := update s.routes l.dst (s.routes l.dst ++ [key]) }
  | .transmitMessage m => do
    let (header, message) ← l.onReceivedMessage codecs env m
    return arrive { s with links := s.links.set i l } l.dst env.sendTo header message origin

/-- Make a step, if it can be made. -/
def step (s : Cluster Node M typeName) : Act Node M typeName → Option (Cluster Node M typeName)
  | .register n call => do
    let (r, key) ← (s.registry n).call slots call
    return { s with
      registry := update s.registry n r
      routes := update s.routes n (s.routes n ++ key.toList) }
  | .resolve n protocol => do
    let (p, r) ← ((s.registry n).resolve slots protocol).toOption
    return { s with
      registry := update s.registry n r
      resolved := update s.resolved n (s.resolved n ++ [p]) }
  | .connect src dst ps qs localSubnets => do
    let ps ← ps.mapM fun i => (s.resolved src)[i]?
    let qs ← qs.mapM fun i => (s.resolved dst)[i]?
    let l ← Link.connect codecs src dst ps qs localSubnets
    return { s with links := s.links ++ [l] }
  | .close i => return { s with links := s.links.eraseIdx i }
  | .send n header m => return { s with mail := s.mail ++ [⟨n, header, .known m, ⟨header, m⟩⟩] }
  | .pass j dst sendTo => do
    let m ← s.mail[j]?
    let header ← (doForward sendTo dst m.header).toOption
    return { s with mail := s.mail.set j { m with header } }
  | .keepAlive i => do
    let l ← s.links[i]?
    return s.setLink i (l.write codecs none .keepAlive)
  | .announce i route ask => do
    let l ← s.links[i]?
    if route.message ∈ s.routes l.src then
      return s.setLink i (l.write codecs none
        (.subnetDistance route (s.messageName ask l.src route.message)))
    else none
  | .forward i j ask => do
    let l ← s.links[i]?
    let m ← s.mail[j]?
    if m.node = l.src then
      return setLink { s with mail := s.mail.eraseIdx j } i
        (l.write codecs (some m.origin) (s.forwardOp ask m))
    else none
  | .handle i env => do
    let l ← s.links[i]?
    match l.wire with
    | [] => none
    | (pdu, origin) :: wire =>
      match handlePdu codecs slots s i { l with wire } origin env pdu with
      | .ok s => some s
      | .error _ => some { s with links := s.links.eraseIdx i }

end Cluster

/-! ### The names of the keys -/

/-- Which key a name has on each node. -/
abbrev Names (Node : Type) := Node → MessageName → Option LocalTypeKey

/-- The names that the registries know. -/
def Names.of {Node TypeId : Type} {typeName : TypeId → MessageName}
    (registry : Node → ProtocolRegistry typeName) : Names Node :=
  fun n => (registry n).codecByName

/-- Names keep their keys. -/
def Names.Extends {Node : Type} (names names' : Names Node) : Prop :=
  ∀ n name k, names n name = some k → names' n name = some k

/-- The header is the same but for the TTL. -/
def EnvelopeHeader.Same (h h' : EnvelopeHeader) : Prop := h.withTtl 0 = h'.withTtl 0

variable {key : LocalTypeKey} {name : MessageName} {declared : List (LocalTypeKey × MessageName)}
  {read : List (LocalTypeKey × MessageName)} {ask : Except AskErrorKind Unit} {k : LocalTypeKey}
  {sendTo : SendTo}

section Keys

variable {Node TypeId M : Type} {typeName : TypeId → MessageName} (codecs : Codecs TypeId M)

/-- On node `n`, the bytes under the key are those of the message. -/
structure Carries (typeName : TypeId → MessageName) (names : Names Node) (n : Node)
    (key : LocalTypeKey) (body : List UInt8) (origin : Origin M) : Prop where
  key : names n (typeName (codecs.tid origin.message)) = some key
  body : codecs.encode (codecs.tid origin.message) origin.message = some body

/-- The message was decoded, by a codec with the name of its type, from the bytes that it was
encoded to. -/
def Decoded (typeName : TypeId → MessageName) (origin : Origin M) (message : M) : Prop :=
  ∃ t body, typeName t = typeName (codecs.tid origin.message) ∧
    codecs.encode (codecs.tid origin.message) origin.message = some body ∧
    codecs.decode t body = some message

/-- What a message is on node `n`, when it has been received. -/
def Arrived (typeName : TypeId → MessageName) (names : Names Node) (n : Node)
    (origin : Origin M) : AnyMessage M → Prop
  | .known message => Decoded codecs typeName origin message
  | .forward f => Carries codecs typeName names n f.localTypeKey f.body origin

/-- The header that a message has on the wire. -/
def ReceivedMessage.header (m : ReceivedMessage) : EnvelopeHeader :=
  ⟨m.dstAddress, m.ttl, m.priority, m.originSeqNo, m.traceId⟩

/-- What a PDU says, if node `n` has written it. -/
def PduOk (sent : Origin M → Prop) (typeName : TypeId → MessageName) (names : Names Node)
    (n : Node) : Pdu × Option (Origin M) → Prop
  | (.declareType key name, _) => names n name = some key
  | (.transmitMessage m, origin) => ∃ o, origin = some o ∧ sent o ∧
      Carries codecs typeName names n m.foreignTypeKey m.body o ∧ m.header.Same o.header
  | _ => True

/-- What an operation is given, if it is one of node `n`. -/
def OpOk (sent : Origin M → Prop) (typeName : TypeId → MessageName) (names : Names Node) (n : Node)
    (origin : Option (Origin M)) : Op M → Prop
  | .declareType key name => names n name = some key
  | .keepAlive => True
  | .subnetDistance route answer => ∀ name ∈ answer, names n name = some route.message
  | .knownMessage header m => ∃ o, origin = some o ∧ sent o ∧ o.message = m ∧ header.Same o.header
  | .opaqueMessage header f answer => (∀ name ∈ answer, names n name = some f.localTypeKey) ∧
      ∃ o, origin = some o ∧ sent o ∧
        Carries codecs typeName names n f.localTypeKey f.body o ∧ header.Same o.header

variable {codecs} {sent : Origin M → Prop} {names names' : Names Node} {n : Node}
  {origin : Option (Origin M)}

private theorem Carries.mono {body : List UInt8} {o : Origin M}
    (h : Carries codecs typeName names n key body o) (hext : names.Extends names') :
    Carries codecs typeName names' n key body o :=
  ⟨hext _ _ _ h.key, h.body⟩

private theorem PduOk.mono {p : Pdu × Option (Origin M)} (h : PduOk codecs sent typeName names n p)
    (hext : names.Extends names') : PduOk codecs sent typeName names' n p := by
  obtain ⟨pdu, origin⟩ := p
  cases pdu with
  | keepAlive => trivial
  | declareType key name => exact hext _ _ _ h
  | subnetDistance d => trivial
  | transmitMessage m =>
    obtain ⟨o, ho, hsent, hcarries, hsame⟩ := h
    exact ⟨o, ho, hsent, hcarries.mono hext, hsame⟩

/-- A declaration gives the name its key has. -/
private theorem pduOk_declaration {answer : Option MessageName}
    (h : ∀ name ∈ answer, names n name = some key) :
    ∀ pdu ∈ declaration declared key answer,
      PduOk codecs sent typeName names n (pdu, origin) := by
  intro pdu hpdu
  rw [declaration] at hpdu
  split at hpdu
  · exact absurd hpdu not_mem_nil
  · obtain ⟨name, hname, rfl⟩ := map_eq_some_iff.mp (mem_toList.mp hpdu)
    exact h name hname

/-- **What is written is so.** -/
theorem OpOk.pdus {outbound : TypeId → Option (LocalTypeKey × ErasedCodec M)}
    {op : Op M}
    (hout : ∀ t k encode, outbound t = some (k, encode) →
      encode = codecs.encode t ∧ names n (typeName t) = some k)
    (h : OpOk codecs sent typeName names n origin op) :
    ∀ pdu ∈ op.pdus codecs.tid outbound declared,
      PduOk codecs sent typeName names n (pdu, origin) := by
  intro pdu hpdu
  cases op with
  | declareType key name =>
    refine pduOk_declaration (fun name' hname' => ?_) pdu hpdu
    obtain rfl := some.inj hname'
    exact h
  | keepAlive =>
    obtain rfl := mem_singleton.mp hpdu
    trivial
  | subnetDistance route answer =>
    rcases mem_append.mp hpdu with hpdu | hpdu
    · exact pduOk_declaration h pdu hpdu
    · obtain rfl := mem_singleton.mp hpdu
      trivial
  | knownMessage header m =>
    obtain ⟨o, rfl, hsent, rfl, hsame⟩ := h
    rw [Op.pdus] at hpdu
    split at hpdu
    · exact absurd hpdu not_mem_nil
    · split at hpdu
      · exact absurd hpdu not_mem_nil
      · next key encode hkey =>
        obtain ⟨body, hbody, rfl⟩ := map_eq_some_iff.mp (mem_toList.mp hpdu)
        obtain ⟨rfl, hname⟩ := hout _ _ _ hkey
        exact ⟨o, rfl, hsent, ⟨hname, hbody⟩, hsame⟩
  | opaqueMessage header f answer =>
    obtain ⟨hanswer, o, rfl, hsent, hcarries, hsame⟩ := h
    rw [Op.pdus] at hpdu
    split at hpdu
    · exact absurd hpdu not_mem_nil
    · rcases mem_append.mp hpdu with hpdu | hpdu
      · exact pduOk_declaration hanswer pdu hpdu
      · obtain rfl := mem_singleton.mp hpdu
        exact ⟨o, rfl, hsent, hcarries, hsame⟩

end Keys

/-! ### One direction of a connection -/

namespace Link

variable {Node TypeId M : Type} {typeName : TypeId → MessageName} (codecs : Codecs TypeId M)

/-- The declarations that have been handled: the keys of the map stand for the same names. -/
structure Reads (names : Names Node) (l : Link Node TypeId M)
    (read : List (LocalTypeKey × MessageName)) : Prop where
  declaredTypes : l.writer.declaredTypes = read ++ (l.wire.map Prod.fst).filterMap Pdu.declares
  wellDeclared : WellDeclared read (l.wire.map Prod.fst)
  typeKeyMap : List.Forall₂ (fun p q => p.1 = q.1 ∧ names l.dst p.2 = some q.2) read l.typeKeyMap

/-- What the keys in the tables of a connection stand for. -/
structure Ok (sent : Origin M → Prop) (typeName : TypeId → MessageName) (names : Names Node)
    (l : Link Node TypeId M) : Prop where
  declared : ∀ p ∈ l.writer.declaredTypes, names l.src p.2 = some p.1
  outbound : ∀ t k encode, l.writer.outboundByTypeId t = some (k, encode) →
    encode = codecs.encode t ∧ names l.src (typeName t) = some k
  byName : ∀ name k, l.inboundByName name = some k → names l.dst name = some k
  byLkey : ∀ k t, l.inboundByLkey k = some t → names l.dst (typeName t) = some k
  wire : ∀ p ∈ l.wire, PduOk codecs sent typeName names l.src p
  read : ∃ read, l.Reads names read

/-- The outbound types have been declared. -/
def Ready (l : Link Node TypeId M) : Prop :=
  ∀ t k encode, l.writer.outboundByTypeId t = some (k, encode) →
    k ∈ l.writer.declaredTypes.map Prod.fst

variable {codecs} {sent : Origin M → Prop} {names names' : Names Node} {l l' : Link Node TypeId M}
  {origin : Option (Origin M)} {op : Op M} {p : ProtocolResolved typeName}

private theorem Reads.mono (h : l.Reads names read) (hext : names.Extends names') :
    l.Reads names' read where
  declaredTypes := h.declaredTypes
  wellDeclared := h.wellDeclared
  typeKeyMap := h.typeKeyMap.imp fun _ _ hpq => ⟨hpq.1, hext _ _ _ hpq.2⟩

/-- Later names serve as well. -/
private theorem Ok.mono (h : l.Ok codecs sent typeName names) (hext : names.Extends names') :
    l.Ok codecs sent typeName names' where
  declared p hp := hext _ _ _ (h.declared p hp)
  outbound t k encode hk := ⟨(h.outbound t k encode hk).1, hext _ _ _ (h.outbound t k encode hk).2⟩
  byName name k hk := hext _ _ _ (h.byName name k hk)
  byLkey k t hk := hext _ _ _ (h.byLkey k t hk)
  wire p hp := (h.wire p hp).mono hext
  read := by
    obtain ⟨read, hread⟩ := h.read
    exact ⟨read, hread.mono hext⟩

/-- What a write appends to the wire. -/
private theorem write_eq_ok (h : l.write codecs origin op = .ok l') :
    ∃ writer, exec codecs.tid l.writer op = .ok writer ∧
      Wrote l.writer
        (op.pdus codecs.tid l.writer.outboundByTypeId l.writer.declaredTypes) writer ∧
      l' = { l with
        writer
        wire := l.wire ++ (op.pdus codecs.tid l.writer.outboundByTypeId
          l.writer.declaredTypes).map fun pdu => (pdu, origin) } := by
  obtain ⟨writer, hexec, h⟩ := exists_of_bind_eq_ok h
  have hwrote := exec_spec codecs.tid hexec
  refine ⟨writer, hexec, hwrote, ?_⟩
  have hread : (readLoop (writer.ioW.drop l.writer.ioW.length)).1 =
      op.pdus codecs.tid l.writer.outboundByTypeId l.writer.declaredTypes := by
    rw [hwrote.ioW, drop_left, readLoop_flatMap_bytes hwrote.fits]
  rw [hread] at h
  exact (Except.ok.inj h).symm

/-- **The writer keeps its word.** -/
theorem Ok.write (h : l.Ok codecs sent typeName names)
    (hop : OpOk codecs sent typeName names l.src origin op)
    (hwrite : l.write codecs origin op = .ok l') : l'.Ok codecs sent typeName names := by
  obtain ⟨writer, -, hwrote, rfl⟩ := write_eq_ok hwrite
  have hpdus : ∀ pdu ∈ op.pdus codecs.tid l.writer.outboundByTypeId l.writer.declaredTypes,
      PduOk codecs sent typeName names l.src (pdu, origin) := hop.pdus h.outbound
  refine ⟨fun p hp => ?_, fun t k encode hk => h.outbound t k encode (hwrote.outbound ▸ hk),
    h.byName, h.byLkey, fun p hp => ?_, ?_⟩
  · rw [hwrote.declaredTypes] at hp
    rcases List.mem_append.mp hp with hp | hp
    · exact h.declared p hp
    · obtain ⟨pdu, hpdu, hdeclares⟩ := List.mem_filterMap.mp hp
      have hok := hpdus pdu hpdu
      cases pdu with
      | declareType key name =>
        obtain rfl := some.inj hdeclares
        exact hok
      | keepAlive | subnetDistance | transmitMessage => contradiction
  · rcases List.mem_append.mp hp with hp | hp
    · exact h.wire p hp
    · obtain ⟨pdu, hpdu, rfl⟩ := List.mem_map.mp hp
      exact hpdus pdu hpdu
  · obtain ⟨read, hread⟩ := h.read
    have hwire : (l.wire ++ (op.pdus codecs.tid l.writer.outboundByTypeId
        l.writer.declaredTypes).map fun pdu => (pdu, origin)).map Prod.fst =
        l.wire.map Prod.fst ++
          op.pdus codecs.tid l.writer.outboundByTypeId l.writer.declaredTypes := by
      rw [List.map_append, List.map_map]
      exact congrArg _ (List.map_id _)
    refine ⟨read, ?_, ?_, hread.typeKeyMap⟩
    · rw [hwire, hwrote.declaredTypes, hread.declaredTypes, List.filterMap_append,
        List.append_assoc]
    · rw [hwire]
      exact hread.wellDeclared.append (hread.declaredTypes ▸ hwrote.wellDeclared)

/-! ### A new connection -/

private theorem mem_of_collectMap {K V : Type} [BEq K] [LawfulBEq K] {l : List (K × V)} {k : K}
    {v : V} (h : collectMap l k = some v) : (k, v) ∈ l := by
  obtain ⟨l₁, l₂, heq, -⟩ := lookup_eq_some_iff.mp h
  rw [← mem_reverse, heq]
  exact mem_append_right _ mem_cons_self

private theorem exists_of_mapM {α β : Type} {f : α → Option β} {l : List α} {l' : List β}
    (h : l.mapM f = some l') : ∀ b ∈ l', ∃ a ∈ l, f a = some b := by
  induction l generalizing l' with
  | nil =>
    obtain rfl := some.inj h
    exact fun _ hb => absurd hb not_mem_nil
  | cons a l ih =>
    rw [mapM_cons] at h
    obtain ⟨b, hb, h⟩ := bind_eq_some_iff.mp h
    obtain ⟨bs, hbs, h⟩ := bind_eq_some_iff.mp h
    obtain rfl := some.inj h
    refine forall_mem_cons.mpr ⟨⟨a, mem_cons_self, hb⟩, fun b' hb' => ?_⟩
    obtain ⟨a', ha', hab⟩ := ih hbs b' hb'
    exact ⟨a', mem_cons_of_mem _ ha', hab⟩

/-- The types of a list of keys, and the pairs that they are of. -/
private theorem mem_of_typeIds? {ids : List (LocalTypeKey × TypeId)} (h : p.typeIds? = some ids)
    {t : TypeId} (hk : (k, t) ∈ ids) : (typeName t, k) ∈ p.outbound := by
  obtain ⟨⟨name, k'⟩, hpair, heq⟩ := exists_of_mapM h _ hk
  obtain ⟨t', ht', heq⟩ := map_eq_some_iff.mp heq
  obtain ⟨rfl, rfl⟩ := Prod.mk.inj heq
  obtain ⟨c, hc, ht⟩ := bind_eq_some_iff.mp ht'
  have hname : c.name = name := by simpa using List.find?_some hc
  rwa [← c.name_eq t' ht, hname]

/-- What is put together of protocols that a registry has resolved. -/
private theorem names_of_reduce [DecidableEq TypeId] {r : ProtocolRegistry typeName}
    {ps : List (ProtocolResolved typeName)} (h : reduce ps = .ok p) (hps : ∀ p ∈ ps, r.Resolved p) :
    (∀ pair ∈ p.outbound, r.codecByName pair.1 = some pair.2) ∧
      ∀ pair ∈ p.inbound, r.codecByName pair.1 = some pair.2 := by
  obtain ⟨hout, hin, -⟩ := (reduce_spec ps).of_ok h
  rw [hout, hin]
  constructor
  · intro pair hpair
    obtain ⟨q, hq, hmem⟩ := mem_flatMap.mp (BiMap.standing_subset hpair)
    exact (hps q hq).outbound.2 pair hmem
  · intro pair hpair
    obtain ⟨q, hq, hmem⟩ := mem_flatMap.mp (BiMap.standing_subset hpair)
    exact (hps q hq).inbound.2 pair hmem

/-- What a write leaves, and that a type which has been declared stays so. -/
private theorem write_frame (h : l.write codecs origin op = .ok l') :
    l'.src = l.src ∧ l'.dst = l.dst ∧
      l'.writer.outboundByTypeId = l.writer.outboundByTypeId ∧
      l.writer.declaredTypes ⊆ l'.writer.declaredTypes := by
  obtain ⟨writer, -, hwrote, rfl⟩ := write_eq_ok h
  refine ⟨rfl, rfl, hwrote.outbound, ?_⟩
  rw [hwrote.declaredTypes]
  exact subset_append_left _ _

private theorem Ready.write (h : l.Ready) (hwrite : l.write codecs origin op = .ok l') :
    l'.Ready := by
  obtain ⟨-, -, hout, hdeclared⟩ := write_frame hwrite
  intro t k encode hk
  rw [hout] at hk
  exact map_subset _ hdeclared (h t k encode hk)

/-- `write_delcare_type` -/
private theorem declared_of_write {pair : MessageName × LocalTypeKey}
    (h : l.write codecs none (.ofOutbound pair) = .ok l') :
    pair.2 ∈ l'.writer.declaredTypes.map Prod.fst := by
  obtain ⟨writer, -, hwrote, rfl⟩ := write_eq_ok h
  dsimp only
  rw [hwrote.declaredTypes, Op.ofOutbound, Op.pdus, declaration, map_append]
  cases hlookup : l.writer.declaredTypes.lookup pair.2 with
  | some name => exact mem_append_left _ (mem_of_lookup_eq_some hlookup)
  | none => exact mem_append_right _ mem_cons_self

/-- The types of the protocols are declared. -/
private theorem Ok.declareAll {pairs : List (MessageName × LocalTypeKey)}
    (h : l.Ok codecs sent typeName names)
    (hpairs : ∀ pair ∈ pairs, names l.src pair.1 = some pair.2)
    (hfold : pairs.foldlM (fun l pair => (l.write codecs none (.ofOutbound pair)).toOption) l =
      some l') :
    l'.Ok codecs sent typeName names ∧ l'.writer.outboundByTypeId = l.writer.outboundByTypeId ∧
      l.writer.declaredTypes ⊆ l'.writer.declaredTypes ∧
      ∀ pair ∈ pairs, pair.2 ∈ l'.writer.declaredTypes.map Prod.fst := by
  induction pairs generalizing l with
  | nil =>
    obtain rfl := some.inj hfold
    exact ⟨h, rfl, List.Subset.refl _, fun _ hpair => absurd hpair not_mem_nil⟩
  | cons pair pairs ih =>
    rw [foldlM_cons] at hfold
    obtain ⟨l₁, hwrite, hfold⟩ := bind_eq_some_iff.mp hfold
    have hwrite := eq_ok_of_toOption hwrite
    obtain ⟨hpair, hpairs⟩ := forall_mem_cons.mp hpairs
    obtain ⟨hsrc, -, hout, hdeclared⟩ := write_frame hwrite
    have hop : OpOk codecs sent typeName names l.src none (.ofOutbound pair) := hpair
    obtain ⟨hok, hout', hdeclared', hall⟩ := ih (h.write hop hwrite)
      (fun p hp => hsrc ▸ hpairs p hp) hfold
    refine ⟨hok, hout'.trans hout, fun _ hp => hdeclared' (hdeclared hp),
      forall_mem_cons.mpr ⟨?_, hall⟩⟩
    exact map_subset _ hdeclared' (declared_of_write hwrite)

/-- **A new connection.** -/
theorem connect_ok [DecidableEq TypeId] {src dst : Node} {ps qs : List (ProtocolResolved typeName)}
    {localSubnets : List (AddressRange × Unit)} {registry : Node → ProtocolRegistry typeName}
    (hps : ∀ p ∈ ps, (registry src).Resolved p) (hqs : ∀ q ∈ qs, (registry dst).Resolved q)
    (h : connect codecs src dst ps qs localSubnets = some l) :
    l.Ok codecs sent typeName (.of registry) ∧ l.Ready := by
  obtain ⟨p, hp, h⟩ := bind_eq_some_iff.mp h
  obtain ⟨q, hq, h⟩ := bind_eq_some_iff.mp h
  obtain ⟨outbound, hout, h⟩ := bind_eq_some_iff.mp h
  obtain ⟨inbound, hin, h⟩ := bind_eq_some_iff.mp h
  obtain ⟨hpout, -⟩ := names_of_reduce (eq_ok_of_toOption hp) hps
  obtain ⟨hqout, hqin⟩ := names_of_reduce (eq_ok_of_toOption hq) hqs
  have hids {t : TypeId} {k : LocalTypeKey} {encode : ErasedCodec M}
      (hk : codecs.outboundByTypeId outbound t = some (k, encode)) :
      encode = codecs.encode t ∧ (typeName t, k) ∈ p.outbound := by
    obtain ⟨k', hk', heq⟩ := map_eq_some_iff.mp hk
    obtain ⟨rfl, rfl⟩ := Prod.mk.inj heq
    obtain ⟨⟨k', t'⟩, hmem, heq⟩ := mem_map.mp (mem_of_collectMap hk')
    obtain ⟨rfl, rfl⟩ := Prod.mk.inj heq
    exact ⟨rfl, mem_of_typeIds? hout hmem⟩
  have hstart : (start codecs src dst outbound q.inbound inbound localSubnets).Ok codecs sent
      typeName (.of registry) :=
    ⟨fun _ hp => absurd hp not_mem_nil, fun t k encode hk => ⟨(hids hk).1, hpout _ (hids hk).2⟩,
      fun name k hk => hqin _ (mem_of_collectMap hk),
      fun k t hk => hqout _ (mem_of_typeIds? hin (mem_of_collectMap hk)),
      fun _ hp => absurd hp not_mem_nil, [], rfl, trivial, .nil⟩
  obtain ⟨hok, hsame, -, hdeclared⟩ := hstart.declareAll hpout h
  refine ⟨hok, fun t k encode hk => ?_⟩
  rw [hsame] at hk
  exact hdeclared _ (hids hk).2

end Link

/-! ### What `run` expects -/

section Expect

variable {TypeId : Type} [DecidableEq TypeId] {typeName : TypeId → MessageName}
  {ps : List (ProtocolResolved typeName)}

/-- The names of both parts are there. -/
private theorem Protocol.names_addCodecs {p p' : Protocol typeName}
    {cs : List (ErasedCodecApi typeName)} {hknown : ∀ c ∈ cs, c.tid.isSome = true}
    (h : p.addCodecs cs hknown = some p') :
    p.codecs.map ErasedCodecApi.name ⊆ p'.codecs.map ErasedCodecApi.name ∧
      cs.map ErasedCodecApi.name ⊆ p'.codecs.map ErasedCodecApi.name := by
  induction cs generalizing p with
  | nil =>
    obtain rfl := some.inj h
    exact ⟨List.Subset.refl _, nil_subset _⟩
  | cons c cs ih =>
    obtain ⟨p₁, hp₁, h⟩ := bind_eq_some_iff.mp h
    obtain ⟨hp, hcs⟩ := ih h
    have hone : p.codecs.map ErasedCodecApi.name ⊆ p₁.codecs.map ErasedCodecApi.name ∧
        c.name ∈ p₁.codecs.map ErasedCodecApi.name := by
      rw [Protocol.tmpAddAnyCodecReally] at hp₁
      split at hp₁
      case isTrue hname =>
        obtain rfl := some.inj hp₁
        exact ⟨List.Subset.refl _, hname⟩
      case isFalse =>
        obtain ⟨-, hp₁⟩ := ite_none_left_eq_some.mp hp₁
        obtain rfl := some.inj hp₁
        rw [Protocol.push, map_append]
        exact ⟨subset_append_left _ _, mem_append_right _ mem_cons_self⟩
    exact ⟨List.Subset.trans hone.1 hp, cons_subset.mpr ⟨hp hone.2, hcs⟩⟩

/-- What is put together has the codecs of all. -/
private theorem names_of_addAll {acc acc' : Combined typeName} (h : acc.addAll ps = .ok acc') :
    acc.protocol.codecs.map ErasedCodecApi.name ⊆ acc'.protocol.codecs.map ErasedCodecApi.name ∧
      ∀ p ∈ ps, p.protocol.codecs.map ErasedCodecApi.name ⊆
        acc'.protocol.codecs.map ErasedCodecApi.name := by
  induction ps generalizing acc with
  | nil =>
    obtain rfl := Except.ok.inj h
    exact ⟨List.Subset.refl _, fun _ hp => absurd hp not_mem_nil⟩
  | cons p ps ih =>
    obtain ⟨acc₁, hacc₁, h⟩ := exists_of_bind_eq_ok h
    obtain ⟨protocol₁, h₁, hacc₁⟩ := exists_of_bind_eq_ok hacc₁
    obtain ⟨protocol₂, h₂, hacc₁⟩ := exists_of_bind_eq_ok hacc₁
    obtain ⟨out, -, hacc₁⟩ := exists_of_bind_eq_ok hacc₁
    obtain ⟨inb, -, hacc₁⟩ := exists_of_bind_eq_ok hacc₁
    obtain rfl := Except.ok.inj hacc₁
    have hsome {x : Option (Protocol typeName)} {q : Protocol typeName}
        (hx : x.elim (Except.error ReduceFailure.panic) Except.ok = Except.ok q) :
        x = some q := by
      cases x with
      | none => contradiction
      | some x => rw [Except.ok.inj hx]
    obtain ⟨hold₁, -⟩ := Protocol.names_addCodecs (hsome h₁)
    obtain ⟨hold₂, hnew⟩ := Protocol.names_addCodecs (hsome h₂)
    obtain ⟨hacc, hps⟩ := ih h
    exact ⟨List.Subset.trans (List.Subset.trans hold₁ hold₂) hacc,
      forall_mem_cons.mpr ⟨List.Subset.trans hnew hacc, hps⟩⟩

/-- **All that `run` expects is there**: the types of resolved protocols have codecs. -/
theorem typeIds?_of_reduce {r : ProtocolRegistry typeName} {p : ProtocolResolved typeName}
    (h : reduce ps = .ok p) (hps : ∀ p ∈ ps, r.Resolved p) : p.typeIds?.isSome = true := by
  have hcodecs : ∀ q ∈ ps, q.protocol.codecs.map ErasedCodecApi.name ⊆
      p.protocol.codecs.map ErasedCodecApi.name := by
    obtain ⟨acc, hacc, heq⟩ := exists_of_bind_eq_ok h
    obtain rfl := Except.ok.inj heq
    exact (names_of_addAll hacc).2
  have hall : ∀ pair ∈ p.outbound, ∃ t,
      ((p.codec? pair.1).bind ErasedCodecApi.tid).map (fun t => (pair.2, t)) = some t := by
    intro pair hpair
    rw [((reduce_spec ps).of_ok h).1] at hpair
    obtain ⟨q, hq, hmem⟩ := mem_flatMap.mp (BiMap.standing_subset hpair)
    have hname : pair.1 ∈ q.protocol.codecs.map ErasedCodecApi.name :=
      (hps q hq).outbound.1 ▸ mem_map_of_mem hmem
    obtain ⟨c, hc, heq⟩ := mem_map.mp (hcodecs q hq hname)
    have hfind : (p.codec? pair.1).isSome = true := by
      rw [ProtocolResolved.codec?, List.find?_isSome]
      exact ⟨c, hc, decide_eq_true heq⟩
    obtain ⟨c', hc'⟩ := isSome_iff_exists.mp hfind
    obtain ⟨t, ht⟩ := isSome_iff_exists.mp
      (p.protocol.known c' (mem_of_find?_eq_some hc'))
    exact ⟨(pair.2, t), by rw [hc', bind_some, ht, map_some]⟩
  rw [ProtocolResolved.typeIds?]
  generalize p.outbound = pairs at hall
  induction pairs with
  | nil => rfl
  | cons pair pairs ih =>
    obtain ⟨⟨t, ht⟩, hpairs⟩ := forall_mem_cons.mp hall
    obtain ⟨ids, hids⟩ := isSome_iff_exists.mp (ih hpairs)
    rw [mapM_cons, ht, hids]
    rfl

end Expect

/-! ### What can go wrong -/

/-- What ends a connection at a PDU, other than its declarations: the message cannot be decoded, the
manager is out of keys or does not get or answer what it is told or asked, or the metric is the
greatest one. -/
def HandleError.Excused (env : Ambient) (pdu : Pdu) : HandleError → Prop
  | .duplicateDeclaration _ | .unregistered _ => False
  | .notDecoded => True
  | .registerOpaqueMessage e => env.ask = .error e
  | .manager panic => panic = .full
  | .overflow => env.overflowChecks = true ∧ ∃ h, pdu = .subnetDistance h ∧ h.metric = some 255
  | .tell e => env.tell = .error e

/-- The fault of a message: it cannot be encoded, or is too long. -/
def WriteError.OfMessage (e : WriteError) : Prop :=
  e = .noCodec ∨ e = .encodeMessage ∨ e = .messageTooLarge ∨ e = .nameTooLong

/-- The fault of a message, or the manager was asked for a name and has not answered. -/
def WriteError.OfMessageOr (unanswered : Prop) (e : WriteError) : Prop :=
  e.OfMessage ∨ (e = .getMessageName ∧ unanswered)

namespace OutputWriter

variable {TypeId M : Type} {w : OutputWriter TypeId M}

private theorem tryIntoU16_error {e : WriteError} (he : e.OfMessage) (n : ℕ) :
    Ensures WriteError.OfMessage (fun _ => True) (tryIntoU16 e n) := by
  rw [tryIntoU16]
  split
  · trivial
  · exact he

private theorem insertDeclared_error (key : LocalTypeKey) (name : MessageName) :
    Ensures WriteError.OfMessage (fun _ => True) (w.insertDeclared key name) := by
  have hio : Ensures WriteError.OfMessage (fun _ => True)
      (doWriteDeclareType w.ioW key name) := by
    refine (tryIntoU16_error (.inr (.inr (.inr rfl))) _).bind fun len _ => ?_
    rw [putHeader_eq]
    trivial
  exact hio.bind fun _ _ => trivial

private theorem declareVacant_error (key : LocalTypeKey) (answer : Option MessageName) :
    Ensures (WriteError.OfMessageOr (answer = none)) (fun _ => True)
      (w.declareVacant key answer) := by
  rw [declareVacant.eq_def]
  split
  · trivial
  · split
    · exact .inr ⟨rfl, rfl⟩
    · exact (insertDeclared_error key _).mono_error fun _ => .inl

private theorem doWriteMessage_error (io : List UInt8) (header : EnvelopeHeader) (ttl : UInt8)
    (key : LocalTypeKey) (body : List UInt8) :
    Ensures WriteError.OfMessage (fun _ => True) (doWriteMessage io header ttl key body) := by
  refine (tryIntoU16_error (.inr (.inr (.inl rfl))) _).bind fun size _ => ?_
  rw [putHeader_eq]
  trivial

/-- The manager has not answered. -/
def Op.Unanswered : Op M → Prop
  | .subnetDistance _ answer | .opaqueMessage _ _ answer => answer = none
  | _ => False

end OutputWriter

namespace Link

variable {Node TypeId M : Type} {typeName : TypeId → MessageName} {codecs : Codecs TypeId M}
  {sent : Origin M → Prop} {names names' : Names Node} {l l' : Link Node TypeId M}
  {registry : Node → ProtocolRegistry typeName}

/-- **A write fails because of the message**, or of the manager. -/
theorem Ok.write_error {origin : Option (Origin M)} {op : Op M}
    (hinj : ∀ n name name' key, names n name = some key → names n name' = some key → name = name')
    (h : l.Ok codecs sent typeName names) (hready : l.Ready)
    (hop : OpOk codecs sent typeName names l.src origin op) :
    Ensures (WriteError.OfMessageOr op.Unanswered) (fun _ => True) (l.write codecs origin op) := by
  suffices hexec : Ensures (WriteError.OfMessageOr op.Unanswered) (fun _ => True)
      (exec codecs.tid l.writer op) from hexec.bind fun _ _ => trivial
  cases op with
  | declareType key name =>
    change Ensures _ _ (l.writer.writeDeclareType key name)
    rw [writeDeclareType]
    split
    case h_1 old hold =>
      obtain ⟨l₁, l₂, hmem, -⟩ := lookup_eq_some_iff.mp hold
      have hname := h.declared (key, old) (by
        rw [hmem]
        exact mem_append_right _ mem_cons_self)
      rw [if_pos (hinj _ _ _ _ hname hop)]
      trivial
    case h_2 => exact (insertDeclared_error key name).mono_error fun _ => .inl
  | keepAlive =>
    change Ensures _ _ l.writer.writeKeepAlive
    rw [writeKeepAlive, putHeader_eq]
    trivial
  | subnetDistance route answer =>
    refine (declareVacant_error _ answer).bind fun w _ => ?_
    rw [doWriteSubnetDistance, putHeader_eq]
    trivial
  | knownMessage header m =>
    change Ensures _ _ (l.writer.writeKnownMessage codecs.tid header m)
    rw [writeKnownMessage]
    split
    · trivial
    · split
      · exact .inl (.inl rfl)
      · next key codec hkey =>
        split
        · next hnone =>
          exact absurd (hready _ _ _ hkey) (lookup_eq_none_iff.mp hnone)
        · exact .inl (.inr (.inl rfl))
        · exact ((doWriteMessage_error ..).mono_error fun _ => .inl).bind
            fun _ _ => trivial
  | opaqueMessage header f answer =>
    change Ensures _ _ (l.writer.writeOpaqueMessage header f answer)
    rw [writeOpaqueMessage]
    split
    · trivial
    · exact (declareVacant_error _ answer).bind fun w _ =>
        ((doWriteMessage_error ..).mono_error fun _ => .inl).bind fun _ _ => trivial

/-! ### The next PDU -/

section Next

variable {pdu : Pdu} {origin : Option (Origin M)} {wire : List (Pdu × Option (Origin M))}
  {env : Ambient}

/-- A key is in the map if it has been declared, and they stand for the same name. -/
private theorem Reads.lookup (h : l.Reads names read) (key : ForeignTypeKey) :
    (key ∉ read.map Prod.fst ∧ l.typeKeyMap.lookup key = none) ∨
      ∃ name k, (key, name) ∈ read ∧ l.typeKeyMap.lookup key = some k ∧
        names l.dst name = some k := by
  have hmap := h.typeKeyMap
  clear h
  generalize l.typeKeyMap = map at hmap ⊢
  induction hmap with
  | nil => exact .inl ⟨not_mem_nil, rfl⟩
  | @cons p q read map hpq _ ih =>
    obtain ⟨key', k⟩ := q
    obtain ⟨rfl, hname⟩ := hpq
    by_cases hkey : key = p.1
    · subst hkey
      exact .inr ⟨p.2, k, mem_cons_self, lookup_cons_self, hname⟩
    · have hlookup : ((p.1, k) :: map).lookup key = map.lookup key := by
        rw [lookup_cons, beq_eq_false_iff_ne.mpr hkey]
      rw [hlookup]
      refine ih.imp (fun hnone => ⟨?_, hnone.2⟩) fun ⟨name, k, hmem, hk⟩ =>
        ⟨name, k, mem_cons_of_mem _ hmem, hk⟩
      rw [map_cons, mem_cons, not_or]
      exact ⟨hkey, hnone.1⟩

section Handled

variable (h : l.Ok codecs sent typeName names)

include h

/-- A type that is named has been declared: its key is in the map, and both keys stand for one
name. -/
private theorem Ok.uses {key : ForeignTypeKey} (hwire : l.wire = (pdu, origin) :: wire)
    (huses : pdu.uses = some key) :
    ∃ k name, l.typeKeyMap.lookup key = some k ∧ names l.src name = some key ∧
      names l.dst name = some k := by
  obtain ⟨read, hread⟩ := h.read
  have hdeclared := hread.wellDeclared
  rw [hwire] at hdeclared
  rcases hread.lookup key with ⟨hnot, -⟩ | ⟨name, k, hmem, hk, hname⟩
  · exact absurd (hdeclared.2.1 key huses) hnot
  · have hsrc := h.declared (key, name) (by
      rw [hread.declaredTypes]
      exact mem_append_left _ hmem)
    exact ⟨k, name, hk, hsrc, hname⟩

/-- A type is declared once. -/
private theorem Ok.fresh {key : ForeignTypeKey}
    (hwire : l.wire = (.declareType key name, origin) :: wire) :
    l.typeKeyMap.lookup key = none := by
  obtain ⟨read, hread⟩ := h.read
  have hdeclared := hread.wellDeclared
  rw [hwire] at hdeclared
  rcases hread.lookup key with ⟨-, hnone⟩ | ⟨name', k, hmem, -⟩
  · exact hnone
  · exact absurd (mem_map_of_mem hmem) (hdeclared.1 (key, name) rfl)

/-- A PDU that declares nothing has been handled. -/
private theorem Ok.handled (hwire : l.wire = (pdu, origin) :: wire)
    (hdeclares : pdu.declares = none) : { l with wire }.Ok codecs sent typeName names := by
  obtain ⟨read, hread⟩ := h.read
  have hdeclared := hread.wellDeclared
  have htypes := hread.declaredTypes
  rw [hwire, map_cons] at hdeclared htypes
  rw [filterMap_declares_cons, hdeclares] at htypes
  have hrest := hdeclared.2.2
  rw [hdeclares, toList_none, append_nil] at hrest
  exact ⟨h.declared, h.outbound, h.byName, h.byLkey,
    fun p hp => h.wire p (hwire ▸ mem_cons_of_mem _ hp), read, htypes, hrest, hread.typeKeyMap⟩

/-- A declaration has been handled. -/
private theorem Ok.declare {key : ForeignTypeKey}
    (hwire : l.wire = (.declareType key name, origin) :: wire) (hk : names l.dst name = some k) :
    { l with wire, typeKeyMap := l.typeKeyMap ++ [(key, k)] }.Ok codecs sent typeName names := by
  obtain ⟨read, hread⟩ := h.read
  have hdeclared := hread.wellDeclared
  have htypes := hread.declaredTypes
  rw [hwire, map_cons] at hdeclared htypes
  rw [filterMap_declares_cons] at htypes
  refine ⟨h.declared, h.outbound, h.byName, h.byLkey,
    fun p hp => h.wire p (hwire ▸ mem_cons_of_mem _ hp), read ++ [(key, name)], ?_,
    hdeclared.2.2, ?_⟩
  · rw [append_assoc]
    exact htypes
  · exact rel_append hread.typeKeyMap (.cons ⟨rfl, hk⟩ .nil)

end Handled

/-- The names of all nodes, when one registry has grown. -/
private theorem extends_of_grows [DecidableEq Node] {n : Node} {r' : ProtocolRegistry typeName}
    (h : Grows (registry n) r') :
    (Names.of registry).Extends (.of (update registry n r')) := by
  intro m name k hk
  rw [Names.of] at hk ⊢
  by_cases hm : m = n
  · subst hm
    rw [update_self]
    exact h.names name k hk
  · rwa [update_of_ne hm]

/-- **A declaration is handled.** The map gets a key that stands for the name. -/
theorem onDeclareType_spec [DecidableEq Node] [DecidableEq TypeId]
    {slots : Roster.Slots LocalTypeKey} {key : ForeignTypeKey} (hinv : (registry l.dst).Inv)
    (h : l.Ok codecs sent typeName (.of registry))
    (hwire : l.wire = (.declareType key name, origin) :: wire) :
    Ensures (HandleError.Excused env (.declareType key name))
      (fun res => res.2.Inv ∧ Grows (registry l.dst) res.2 ∧
        res.1.dst = l.dst ∧ (l.Ready → res.1.Ready) ∧
        res.1.Ok codecs sent typeName (.of (update registry l.dst res.2)))
      (onDeclareType slots env { l with wire } (registry l.dst) key name) := by
  rw [onDeclareType, h.fresh hwire]
  dsimp only
  cases hname : l.inboundByName name with
  | some k =>
    refine ⟨hinv, .refl _, rfl, id, ?_⟩
    rw [update_eq_self]
    exact h.declare hwire (h.byName name k hname)
  | none =>
    have hask : Ensures (HandleError.Excused env (.declareType key name)) (fun _ => True)
        (env.ask.mapError .registerOpaqueMessage) := by
      cases henv : env.ask with
      | error e => exact henv
      | ok => trivial
    refine hask.bind fun _ _ => ((registerMessage_spec hinv).mapError fun _ herr => herr).bind ?_
    rintro ⟨k, r⟩ hreg
    have hgrows := hreg.grows hinv
    refine ⟨hreg.inv hinv, hgrows, rfl, id, ?_⟩
    refine (h.mono (extends_of_grows hgrows)).declare hwire ?_
    rw [Names.of, update_self]
    exact hreg.codecByName hinv

/-- **A route is handled.** The manager is told of it under the key of its type. -/
theorem onSubnetDistance_spec {h : SubnetDistance ForeignTypeKey}
    (hok : l.Ok codecs sent typeName names)
    (hwire : l.wire = (.subnetDistance h, origin) :: wire) :
    Ensures (HandleError.Excused env (.subnetDistance h))
      (fun k => ∃ name, names l.dst name = some k) (onSubnetDistance env { l with wire } h) := by
  obtain ⟨k, name, hk, -, hname⟩ := hok.uses hwire (show Pdu.uses _ = some h.typeHandle from rfl)
  have hkey : typeKey { l with wire } h.typeHandle = .ok k := by rw [typeKey, hk]
  rw [onSubnetDistance, hkey]
  dsimp only [bind, Except.bind]
  split
  · next hnone =>
    cases hmetric : h.metric with
    | none => rw [hmetric] at hnone; contradiction
    | some m =>
      rw [hmetric, mapM_some, RouteMetric.addOne] at hnone
      split at hnone
      · next hmax => exact ⟨hmax.1, h, rfl, hmax.2 ▸ hmetric⟩
      · contradiction
  · cases htell : env.tell with
    | error e => exact htell
    | ok => exact ⟨name, hname⟩

/-- **A message is handled.** It is decoded by the codec of its name, or goes on under the key of
its name. -/
theorem onReceivedMessage_spec {m : ReceivedMessage}
    (hinj : ∀ n name name' key, names n name = some key → names n name' = some key → name = name')
    (h : l.Ok codecs sent typeName names) (hwire : l.wire = (.transmitMessage m, origin) :: wire) :
    Ensures (HandleError.Excused env (.transmitMessage m))
      (fun res => ∃ o, origin = some o ∧ sent o ∧ res.1.Same o.header ∧
        Arrived codecs typeName names l.dst o res.2)
      (onReceivedMessage codecs { l with wire } env m) := by
  obtain ⟨o, rfl, hsent, hcarries, hsame⟩ := h.wire (.transmitMessage m, origin) (by
    rw [hwire]
    exact mem_cons_self)
  obtain ⟨k, name, hk, hsrc, hdst⟩ :=
    h.uses hwire (show Pdu.uses _ = some m.foreignTypeKey from rfl)
  obtain rfl := hinj _ _ _ _ hsrc hcarries.key
  have hkey : typeKey { l with wire } m.foreignTypeKey = .ok k := by rw [typeKey, hk]
  rw [onReceivedMessage, hkey]
  dsimp only [bind, Except.bind]
  cases hmessage : (inbound codecs { l with wire } env).message k m with
  | none => trivial
  | some message =>
    refine ⟨o, rfl, hsent, hsame, ?_⟩
    rw [Inbound.message] at hmessage
    split at hmessage
    · obtain ⟨decode, hdecode, hmessage⟩ := bind_eq_some_iff.mp hmessage
      obtain ⟨x, hx, hmessage⟩ := bind_eq_some_iff.mp hmessage
      obtain rfl := some.inj hmessage
      obtain ⟨t, ht, rfl⟩ := map_eq_some_iff.mp hdecode
      exact ⟨t, m.body, hinj _ _ _ _ (h.byLkey k t ht) hdst, hcarries.body, hx⟩
    · obtain rfl := some.inj hmessage
      exact ⟨hdst, hcarries.body⟩

end Next

end Link

/-! ### Every run -/

namespace Cluster

variable {Node TypeId M : Type} {typeName : TypeId → MessageName} (codecs : Codecs TypeId M)

/-- A message that is sent is one of these. -/
def Act.Sends (sent : Origin M → Prop) : Act Node M typeName → Prop
  | .send _ header m => sent ⟨header, m⟩
  | _ => True

instance {sent : Origin M → Prop} [DecidablePred sent] (a : Act Node M typeName) :
    Decidable (a.Sends sent) :=
  match a with
  | .send _ header m => inferInstanceAs (Decidable (sent ⟨header, m⟩))
  | .register .. | .resolve .. | .connect .. | .close .. | .pass .. | .keepAlive ..
  | .announce .. | .forward .. | .handle .. => inferInstanceAs (Decidable True)

/-- The names that the nodes know. -/
abbrev names (s : Cluster Node M typeName) : Names Node := .of s.registry

/-- What a message is that is passed on. -/
def MailOk (sent : Origin M → Prop) (typeName : TypeId → MessageName) (names : Names Node)
    (m : Mail Node M) : Prop :=
  sent m.origin ∧ m.header.Same m.origin.header ∧
    match m.message with
    | .known message => message = m.origin.message
    | .forward f => Carries codecs typeName names m.node f.localTypeKey f.body m.origin

/-- Keys stand for names. -/
structure Inv (sent : Origin M → Prop) (s : Cluster Node M typeName) : Prop where
  registry : ∀ n, (s.registry n).Inv
  resolved : ∀ n, ∀ p ∈ s.resolved n, (s.registry n).Resolved p
  routes : ∀ n, ∀ key ∈ s.routes n, ∃ name, s.names n name = some key
  links : ∀ l ∈ s.links, l.Ok codecs sent typeName s.names ∧ l.Ready
  mail : ∀ m ∈ s.mail, MailOk codecs sent typeName s.names m
  delivered : ∀ d ∈ s.delivered, sent d.origin ∧ d.header.Same d.origin.header ∧
    Decoded codecs typeName d.origin d.message

variable {codecs} {sent : Origin M → Prop} {s s' : Cluster Node M typeName} {l : Link Node TypeId M}
  {n : Node} {m : Mail Node M} {origin : Option (Origin M)}

private theorem inv_init : (init : Cluster Node M typeName).Inv codecs sent where
  registry _ := inv_empty
  resolved _ _ h := absurd h not_mem_nil
  routes _ _ h := absurd h not_mem_nil
  links _ h := absurd h not_mem_nil
  mail _ h := absurd h not_mem_nil
  delivered _ h := absurd h not_mem_nil

private theorem MailOk.mono {names names' : Names Node} (h : MailOk codecs sent typeName names m)
    (hext : names.Extends names') : MailOk codecs sent typeName names' m := by
  obtain ⟨node, header, message, origin⟩ := m
  obtain ⟨hsent, hsame, hmessage⟩ := h
  refine ⟨hsent, hsame, ?_⟩
  cases message with
  | known => exact hmessage
  | forward f => exact hmessage.mono hext

/-- A key has one name. -/
private theorem Inv.injective (h : s.Inv codecs sent) (n : Node) (name name' : MessageName)
    (key : LocalTypeKey) (hname : s.names n name = some key)
    (hname' : s.names n name' = some key) : name = name' := by
  obtain ⟨c, hc, rfl⟩ := ((h.registry n).names name key).mp hname
  obtain ⟨c', hc', rfl⟩ := ((h.registry n).names name' key).mp hname'
  rw [some.inj (hc.symm.trans hc')]

/-- The manager answers with the name that the key stands for. -/
private theorem Inv.messageName (h : s.Inv codecs sent)
    (hname : s.messageName ask n key = some name) : s.names n name = some key := by
  obtain ⟨-, -, hname⟩ := bind_eq_some_iff.mp hname
  have hname := eq_ok_of_toOption hname
  rw [ProtocolRegistry.messageNameByKey] at hname
  split at hname
  case h_1 => contradiction
  case h_2 c hc => exact ((h.registry n).names name key).mpr ⟨c, hc, Except.ok.inj hname⟩

/-- The manager knows the name, so there is no answer only if the request fails. -/
private theorem Inv.messageName_eq_none (h : s.Inv codecs sent) (hname : s.names n name = some key)
    (hnone : s.messageName ask n key = none) : ask ≠ .ok () := by
  rintro rfl
  rw [Cluster.messageName, (h.registry n).messageNameByKey hname] at hnone
  exact some_ne_none name hnone

/-- **A registry has grown.** -/
theorem Inv.grow [DecidableEq Node] {r : ProtocolRegistry typeName} (h : s.Inv codecs sent)
    (hinv : r.Inv) (hgrows : Grows (s.registry n) r) :
    { s with registry := update s.registry n r }.Inv codecs sent := by
  have hext := Link.extends_of_grows hgrows
  have hall (m : Node) : (update s.registry n r m).Inv ∧
      Grows (s.registry m) (update s.registry n r m) := by
    by_cases hm : m = n
    · subst hm
      rw [update_self]
      exact ⟨hinv, hgrows⟩
    · rw [update_of_ne hm]
      exact ⟨h.registry m, .refl _⟩
  refine ⟨fun m => (hall m).1, fun m p hp => (h.resolved m p hp).mono (hall m).2,
    fun m key hkey => ?_, fun l hl => ⟨(h.links l hl).1.mono hext, (h.links l hl).2⟩,
    fun m hm => (h.mail m hm).mono hext, h.delivered⟩
  obtain ⟨name, hname⟩ := h.routes m key hkey
  exact ⟨name, hext _ _ _ hname⟩

/-- Entries are added to the list of a node. -/
private theorem forall_mem_update {α : Type} [DecidableEq Node] {f : Node → List α} {l : List α}
    {P : Node → α → Prop} (h : ∀ m, ∀ x ∈ f m, P m x) (hl : ∀ x ∈ l, P n x) :
    ∀ m, ∀ x ∈ update f n (f n ++ l) m, P m x := by
  intro m x hx
  by_cases hm : m = n
  · subst hm
    rw [update_self] at hx
    exact (mem_append.mp hx).elim (h m x) (hl x)
  · rw [update_of_ne hm] at hx
    exact h m x hx

/-- A connection goes on. -/
private theorem Inv.set (h : s.Inv codecs sent) (i : ℕ)
    (hl : l.Ok codecs sent typeName s.names ∧ l.Ready) :
    { s with links := s.links.set i l }.Inv codecs sent :=
  ⟨h.registry, h.resolved, h.routes,
    fun l' hl' => (mem_or_eq_of_mem_set hl').elim (h.links l') fun heq => heq ▸ hl,
    h.mail, h.delivered⟩

/-- A connection ends. -/
private theorem Inv.eraseIdx (h : s.Inv codecs sent) (i : ℕ) :
    { s with links := s.links.eraseIdx i }.Inv codecs sent :=
  ⟨h.registry, h.resolved, h.routes, fun l hl => h.links l (mem_of_mem_eraseIdx hl), h.mail,
    h.delivered⟩

/-- A writer does something. -/
private theorem Inv.write {op : Op M} (h : s.Inv codecs sent) (i : ℕ)
    (hl : l.Ok codecs sent typeName s.names ∧ l.Ready)
    (hop : OpOk codecs sent typeName s.names l.src origin op) :
    (s.setLink i (l.write codecs origin op)).Inv codecs sent := by
  cases hwrite : l.write codecs origin op with
  | ok l' => exact h.set i ⟨hl.1.write hop hwrite, hl.2.write hwrite⟩
  | error e => exact h.eraseIdx i

private theorem Inv.addMail (h : s.Inv codecs sent) (hm : MailOk codecs sent typeName s.names m) :
    { s with mail := s.mail ++ [m] }.Inv codecs sent :=
  ⟨h.registry, h.resolved, h.routes, h.links,
    fun m' hm' => (mem_append.mp hm').elim (h.mail m') fun heq =>
      mem_singleton.mp heq ▸ hm, h.delivered⟩

private theorem same_of_dispatch {dst : Address} {header header' : EnvelopeHeader}
    (h : dispatch sendTo dst header = .ok header') : header'.Same header := by
  rw [dispatch] at h
  split at h
  · contradiction
  · next ttl httl =>
    obtain ⟨_, -, h⟩ := exists_of_bind_eq_ok h
    obtain rfl : _ = header' := Except.ok.inj h
    rfl

/-- **A message arrives.** -/
theorem Inv.arrive {header : EnvelopeHeader} {message : AnyMessage M} {o : Origin M}
    (h : s.Inv codecs sent) (hsent : sent o) (hsame : header.Same o.header)
    (harrived : Arrived codecs typeName s.names n o message) :
    (s.arrive n sendTo header message (some o)).Inv codecs sent := by
  rw [Cluster.arrive.eq_def]
  cases hsend : doSend sendTo header with
  | error e => exact h
  | ok header' =>
    have hsame' : header'.Same o.header := (same_of_dispatch hsend).trans hsame
    cases message with
    | known m =>
      refine ⟨h.registry, h.resolved, h.routes, h.links, h.mail, fun d hd => ?_⟩
      rcases mem_append.mp hd with hd | hd
      · exact h.delivered d hd
      · obtain rfl := mem_singleton.mp hd
        exact ⟨hsent, hsame', harrived⟩
    | forward f => exact h.addMail ⟨hsent, hsame', harrived⟩

variable [DecidableEq Node] [DecidableEq TypeId] {slots : Roster.Slots LocalTypeKey}

/-- **A PDU is handled**, and what can go wrong. -/
theorem Inv.handlePdu {i : ℕ} {pdu : Pdu} {wire : List (Pdu × Option (Origin M))} {env : Ambient}
    (h : s.Inv codecs sent) (hl : l ∈ s.links) (hwire : l.wire = (pdu, origin) :: wire) :
    Ensures (HandleError.Excused env pdu) (Inv codecs sent)
      (Cluster.handlePdu codecs slots s i { l with wire } origin env pdu) := by
  obtain ⟨hok, hready⟩ := h.links l hl
  cases pdu with
  | keepAlive => exact h.set i ⟨hok.handled hwire rfl, hready⟩
  | declareType key name =>
    refine (Link.onDeclareType_spec (h.registry l.dst) hok hwire).bind ?_
    rintro ⟨l', r⟩ ⟨hinv, hgrows, hdst, hready', hok'⟩
    have hgrown := (h.grow hinv hgrows).set i ⟨hok', hready' hready⟩
    rw [← hdst] at hgrown
    exact hgrown
  | subnetDistance d =>
    refine (Link.onSubnetDistance_spec hok hwire).bind fun k hk => ?_
    have hset := h.set i ⟨hok.handled hwire rfl, hready⟩
    exact ⟨hset.registry, hset.resolved, forall_mem_update hset.routes fun key hkey =>
      mem_singleton.mp hkey ▸ hk, hset.links, hset.mail, hset.delivered⟩
  | transmitMessage m =>
    refine (Link.onReceivedMessage_spec h.injective hok hwire).bind ?_
    rintro ⟨header, message⟩ ⟨o, rfl, hsent, hsame, harrived⟩
    exact (h.set i ⟨hok.handled hwire rfl, hready⟩).arrive hsent hsame harrived

omit [DecidableEq Node] [DecidableEq TypeId] in
/-- What a gateway writes. -/
private theorem Inv.forwardOp (h : s.Inv codecs sent) (ask : Except AskErrorKind Unit)
    (hm : m ∈ s.mail) :
    OpOk codecs sent typeName s.names m.node (some m.origin) (s.forwardOp ask m) := by
  obtain ⟨hsent, hsame, hmessage⟩ := h.mail m hm
  obtain ⟨node, header, message, origin⟩ := m
  cases message with
  | known message => exact ⟨origin, rfl, hsent, hmessage.symm, hsame⟩
  | forward f =>
    exact ⟨fun name hname => h.messageName hname, origin, rfl, hsent, hmessage, hsame⟩

omit [DecidableEq Node] in
/-- A key that a call returns has a name. -/
private theorem name_of_call {r r' : ProtocolRegistry typeName}
    {call : ProtocolRegistry.Call typeName} (hinv : r.Inv)
    (h : r.call slots call = some (r', some key)) : ∃ name, r'.codecByName name = some key := by
  cases call with
  | registerMessage c =>
    exact ⟨c.name, (call_spec hinv h).2.2 c key rfl rfl⟩
  | registerProtocol =>
    obtain ⟨res, -, heq⟩ := map_eq_some_iff.mp h
    cases heq
  | unregisterProtocol => cases h

/-- **Every step keeps the invariant.** -/
theorem Inv.step {a : Act Node M typeName} (h : s.Inv codecs sent) (hsends : a.Sends sent)
    (hstep : s.step codecs slots a = some s') : s'.Inv codecs sent := by
  cases a with
  | register n call =>
    obtain ⟨⟨r, key⟩, hcall, hstep⟩ := bind_eq_some_iff.mp hstep
    obtain rfl := some.inj hstep
    obtain ⟨hinv, hgrows, -⟩ := call_spec (h.registry n) hcall
    have hgrown := h.grow hinv hgrows
    refine ⟨hgrown.registry, hgrown.resolved, forall_mem_update hgrown.routes fun k hk => ?_,
      hgrown.links, hgrown.mail, hgrown.delivered⟩
    obtain rfl := mem_toList.mp hk
    obtain ⟨name, hname⟩ := name_of_call (h.registry n) hcall
    refine ⟨name, ?_⟩
    change (update s.registry n r n).codecByName name = some k
    rwa [update_self]
  | resolve n protocol =>
    obtain ⟨⟨p, r⟩, hres, hstep⟩ := bind_eq_some_iff.mp hstep
    obtain rfl := some.inj hstep
    obtain ⟨-, hinv, hgrows, hresolved⟩ :=
      (resolve_resolved (h.registry n) protocol).of_ok (eq_ok_of_toOption hres)
    have hgrown := h.grow hinv hgrows
    refine ⟨hgrown.registry, forall_mem_update hgrown.resolved fun q hq => ?_, hgrown.routes,
      hgrown.links, hgrown.mail, hgrown.delivered⟩
    rw [mem_singleton.mp hq]
    dsimp only
    rwa [update_self]
  | connect src dst ps qs localSubnets =>
    obtain ⟨ps', hps, hstep⟩ := bind_eq_some_iff.mp hstep
    obtain ⟨qs', hqs, hstep⟩ := bind_eq_some_iff.mp hstep
    obtain ⟨l, hl, hstep⟩ := bind_eq_some_iff.mp hstep
    obtain rfl := some.inj hstep
    have hresolved {n : Node} {is : List ℕ} {ps : List (ProtocolResolved typeName)}
        (hps : is.mapM (fun i => (s.resolved n)[i]?) = some ps) :
        ∀ p ∈ ps, (s.registry n).Resolved p := by
      intro p hp
      obtain ⟨i, -, hi⟩ := Link.exists_of_mapM hps p hp
      exact h.resolved n p (mem_of_getElem? hi)
    refine ⟨h.registry, h.resolved, h.routes, fun l' hl' => ?_, h.mail, h.delivered⟩
    rcases mem_append.mp hl' with hl' | hl'
    · exact h.links l' hl'
    · rw [mem_singleton.mp hl']
      exact Link.connect_ok (hresolved hps) (hresolved hqs) hl
  | close i =>
    obtain rfl := some.inj hstep
    exact h.eraseIdx i
  | send n header m =>
    obtain rfl := some.inj hstep
    exact h.addMail ⟨hsends, rfl, rfl⟩
  | pass j dst sendTo =>
    obtain ⟨m, hm, hstep⟩ := bind_eq_some_iff.mp hstep
    obtain ⟨header, hheader, hstep⟩ := bind_eq_some_iff.mp hstep
    obtain rfl := some.inj hstep
    refine ⟨h.registry, h.resolved, h.routes, h.links, fun m' hm' => ?_, h.delivered⟩
    rcases mem_or_eq_of_mem_set hm' with hm' | rfl
    · exact h.mail m' hm'
    · obtain ⟨hsent, hsame, hmessage⟩ := h.mail m (mem_of_getElem? hm)
      exact ⟨hsent, (same_of_dispatch (eq_ok_of_toOption hheader)).trans hsame, hmessage⟩
  | keepAlive i =>
    obtain ⟨l, hl, hstep⟩ := bind_eq_some_iff.mp hstep
    obtain rfl := some.inj hstep
    exact h.write i (h.links l (mem_of_getElem? hl)) trivial
  | announce i route ask =>
    obtain ⟨l, hl, hstep⟩ := bind_eq_some_iff.mp hstep
    obtain ⟨-, hstep⟩ := ite_none_right_eq_some.mp hstep
    obtain rfl := some.inj hstep
    exact h.write i (h.links l (mem_of_getElem? hl)) fun name hname => h.messageName hname
  | forward i j ask =>
    obtain ⟨l, hl, hstep⟩ := bind_eq_some_iff.mp hstep
    obtain ⟨m, hm, hstep⟩ := bind_eq_some_iff.mp hstep
    obtain ⟨hnode, hstep⟩ := ite_none_right_eq_some.mp hstep
    obtain rfl := some.inj hstep
    have hop := h.forwardOp ask (mem_of_getElem? hm)
    rw [hnode] at hop
    have hrest : { s with mail := s.mail.eraseIdx j }.Inv codecs sent :=
      ⟨h.registry, h.resolved, h.routes, h.links,
        fun m hm => h.mail m (mem_of_mem_eraseIdx hm), h.delivered⟩
    exact hrest.write i (h.links l (mem_of_getElem? hl)) hop
  | handle i env =>
    obtain ⟨l, hl, hstep⟩ := bind_eq_some_iff.mp hstep
    split at hstep
    · contradiction
    · next pdu origin wire hwire =>
      split at hstep
      · next s'' hhandle =>
        obtain rfl := some.inj hstep
        exact (h.handlePdu (mem_of_getElem? hl) hwire).of_ok hhandle
      · obtain rfl := some.inj hstep
        exact h.eraseIdx i

private theorem Inv.of_reaches
    (h : Reaches (Cluster.step codecs slots) (fun _ a => a.Sends sent) init s) :
    s.Inv codecs sent :=
  h.invariant inv_init fun hinv hsends hstep => hinv.step hsends hstep

/-- **What arrives is what was sent.** However the nodes are connected, and whatever they register,
declare and announce on the way: a message that is delivered on some node was sent, with the same
header but for the TTL, and what was decoded are the bytes that it was encoded to, by a codec with
the name of its type. -/
theorem delivered_as_sent
    (h : Reaches (Cluster.step codecs slots) (fun _ a => a.Sends sent) init s) :
    ∀ d ∈ s.delivered, sent d.origin ∧ d.header.Same d.origin.header ∧
      ∃ t body, typeName t = typeName (codecs.tid d.origin.message) ∧
        codecs.encode (codecs.tid d.origin.message) d.origin.message = some body ∧
        codecs.decode t body = some d.message :=
  (Inv.of_reaches h).delivered

/-- A protocol with one type, of a byte. -/
def octets : Codecs Unit UInt8 := ⟨fun _ => (), fun _ m => some [m], fun _ b => b.head?⟩

def octet (_ : Unit) : MessageName := "u8"

/-- Three nodes in a row. The one in the middle does not have the protocol. -/
def relay : List (Act (Fin 3) UInt8 octet) :=
  [.resolve 0 (Protocol.new.addType ()), .resolve 2 (Protocol.new.addType ()),
    .connect 0 1 [0] [] [], .connect 1 2 [] [0] [(.ofAddress ⟨0xa101#64⟩, ())],
    .register 0 (.registerMessage (.known ())), .send 0 ⟨⟨0xa101#64⟩, 5, false, 7, 8⟩ 42]

/-- Nothing fails. -/
def quiet : Ambient := ⟨0, 0, fun _ _ => .ok (), .ok (), .ok (), true⟩

/-- What is sent on the first node is delivered on the last one. -/
theorem delivered_as_sent_relay :
    ∃ s : Cluster (Fin 3) UInt8 octet, ∃ d ∈ s.delivered,
      Reaches (Cluster.step octets numbered)
        (fun _ a => a.Sends fun o => o.message = 42) init s ∧
      d.node = 2 ∧ d.origin.message = 42 ∧ d.header.Same d.origin.header ∧
      ∃ t body, octet t = octet (octets.tid d.origin.message) ∧
        octets.encode (octets.tid d.origin.message) d.origin.message = some body ∧
        octets.decode t body = some d.message := by
  have hreach : Reaches (Cluster.step octets numbered)
      (fun _ a => a.Sends fun o => o.message = 42) init _ :=
    reaches_get (relay ++ [.handle 0 quiet, .forward 0 0 (.ok ()), .handle 0 quiet,
      .forward 1 0 (.ok ()), .handle 1 quiet, .handle 1 quiet]) rfl
  exact ⟨_, _, mem_cons_self, hreach, rfl, delivered_as_sent hreach _ mem_cons_self⟩

omit [DecidableEq Node] [DecidableEq TypeId] in
private theorem sends_true (a : Act Node M typeName) : a.Sends fun _ => True := by
  cases a <;> trivial

/-- **Types are declared in order.** Whatever has happened, and whatever is on its way: a new
connection finds a codec for each type of its protocols; what a connection handles has been declared
once and before it is used; and what it writes has been declared under one name, which the manager
knows. So a connection ends because a message cannot be encoded or decoded or is too long, because
the manager has no key left or does not get or answer what it is told or asked, because a metric is
too great, or because of what is a step `close` here, and not because of the declarations. -/
theorem types_in_order
    (h : Reaches (Cluster.step codecs slots) (fun _ _ => True) init s) :
    (∀ n ps p, ps ⊆ s.resolved n → reduce ps = .ok p → p.typeIds?.isSome = true) ∧
    ∀ l ∈ s.links,
      (∀ pdu origin wire, l.wire = (pdu, origin) :: wire → ∀ i env,
        Ensures (HandleError.Excused env pdu) (fun _ => True)
          (handlePdu codecs slots s i { l with wire } origin env pdu)) ∧
      (∀ m ∈ s.mail, m.node = l.src → ∀ ask,
        Ensures (WriteError.OfMessageOr (ask ≠ .ok ())) (fun _ => True)
          (l.write codecs (some m.origin) (s.forwardOp ask m))) ∧
      ∀ route : SetRoute, route.message ∈ s.routes l.src → ∀ ask,
        Ensures (WriteError.OfMessageOr (ask ≠ .ok ())) (fun _ => True)
          (l.write codecs none
            (.subnetDistance route (s.messageName ask l.src route.message))) := by
  have hinv : s.Inv codecs fun _ => True :=
    h.invariant inv_init fun hinv _ hstep => hinv.step (sends_true _) hstep
  refine ⟨fun n ps p hps hreduce => typeIds?_of_reduce hreduce fun q hq =>
    hinv.resolved n q (hps hq), fun l hl => ⟨fun pdu origin wire hwire i env =>
      (hinv.handlePdu hl hwire).mono fun _ _ => trivial, fun m hm hnode ask => ?_,
      fun route hroute ask => ?_⟩⟩
  · obtain ⟨hok, hready⟩ := hinv.links l hl
    have hop := hinv.forwardOp ask hm
    rw [hnode] at hop
    refine (hok.write_error hinv.injective hready hop).mono_error fun e he =>
      he.imp_right fun hname => hname.imp_right fun hunanswered => ?_
    obtain ⟨-, -, hmessage⟩ := hinv.mail m hm
    obtain ⟨node, header, message, origin⟩ := m
    cases message with
    | known => exact hunanswered.elim
    | forward f => exact hinv.messageName_eq_none hmessage.key hunanswered
  · obtain ⟨hok, hready⟩ := hinv.links l hl
    have hop : OpOk codecs (fun _ => True) typeName s.names l.src none
        (.subnetDistance route (s.messageName ask l.src route.message)) :=
      fun name hname => hinv.messageName hname
    obtain ⟨name, hname⟩ := hinv.routes l.src route.message hroute
    exact (hok.write_error hinv.injective hready hop).mono_error fun e he =>
      he.imp_right fun hget => hget.imp_right (hinv.messageName_eq_none hname)

/-- A connection that has still to handle a declaration, and a message that waits to be written. -/
theorem types_in_order_relay :
    ∃ s : Cluster (Fin 3) UInt8 octet,
      Reaches (Cluster.step octets numbered) (fun _ _ => True) init s ∧
      ∃ l ∈ s.links, ∃ m ∈ s.mail, m.node = l.src ∧ s.routes l.src ≠ [] ∧
        (∃ pdu origin wire, l.wire = (pdu, origin) :: wire ∧
          Ensures (HandleError.Excused quiet pdu) (fun _ => True)
            (handlePdu octets numbered s 0 { l with wire } origin quiet pdu)) ∧
        Ensures (WriteError.OfMessageOr False) (fun _ => True)
          (l.write octets (some m.origin) (s.forwardOp (.ok ()) m)) := by
  have hreach : Reaches (Cluster.step octets numbered) (fun _ _ => True) init _ :=
    reaches_get relay rfl
  obtain ⟨hhandle, hwrite, -⟩ := (types_in_order hreach).2 _ mem_cons_self
  exact ⟨_, hreach, _, mem_cons_self, _, mem_cons_self, rfl, cons_ne_nil _ _,
    ⟨_, _, _, rfl, hhandle _ _ _ rfl 0 quiet⟩,
    (hwrite _ mem_cons_self rfl (.ok ())).mono_error fun _ he =>
      he.imp_right fun hget => ⟨hget.1, hget.2 rfl⟩⟩

end Cluster

end Mm1
