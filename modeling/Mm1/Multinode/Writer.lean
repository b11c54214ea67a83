import Mathlib.Data.List.Nodup
import Mm1.Multinode.Pdu

/-!
# What a connection writes

`OutputWriter` of a connection: it writes keep-alives, subnet distances and messages, and declares
a message type to the peer before the first PDU that names it, once.

An operation that is not given by its arguments alone (the name of a message type is asked of the
manager, a message is encoded with a codec of the protocol) takes the answer as an argument or
reads it from the table of codecs. `Op.pdus` says what an operation is to put on the wire.

* `exec_spec`: an operation that succeeds writes the bytes of these PDUs;
* `readLoop_run`: so the peer reads them.
-/

namespace Mm1

open Fallible List

/-- The name of a message type. -/
abbrev MessageName := String

/-- `Forward`: a message whose type this node does not know. -/
structure Forward where
  localTypeKey : LocalTypeKey
  body : List UInt8
  deriving DecidableEq

/-- `ErasedCodec::encode`. -/
abbrev ErasedCodec (M : Type) := M → Option (List UInt8)

/-- What can go wrong when something is written. A failed assertion is one of these. -/
inductive WriteError
  | encodeHeader
  | nameTooLong
  | messageTooLarge
  | getMessageName
  | twoNames (key : LocalTypeKey) (old new : MessageName)
  | noCodec
  | encodeMessage
  | notDeclared
  deriving DecidableEq

/-- `OutputWriter`: what has been written, the types that have been declared, and the codecs of the
protocol. -/
structure OutputWriter (TypeId M : Type) where
  ioW : List UInt8
  declaredTypes : List (LocalTypeKey × MessageName)
  outboundByTypeId : TypeId → Option (LocalTypeKey × ErasedCodec M)

namespace OutputWriter

variable {TypeId M : Type}

def new (outboundByTypeId : TypeId → Option (LocalTypeKey × ErasedCodec M)) :
    OutputWriter TypeId M := ⟨[], [], outboundByTypeId⟩

/-! ### The operations -/

def putHeader (io : List UInt8) (header : Header LocalTypeKey) :
    Except WriteError (List UInt8) :=
  match writeHeader header with
  | none => .error .encodeHeader
  | some frame => .ok (io ++ frame)

/-- `try_into` for a `u16`. -/
def tryIntoU16 (e : WriteError) (n : ℕ) : Except WriteError UInt16 :=
  if n < 2 ^ 16 then .ok (UInt16.ofNat n) else .error e

/-- `do_write_declare_type`. -/
def doWriteDeclareType (io : List UInt8) (messageType : LocalTypeKey) (name : MessageName) :
    Except WriteError (List UInt8) := do
  let typeNameLen ← tryIntoU16 .nameTooLong (asBytes name).length
  let io ← putHeader io (.declareType ⟨messageType, typeNameLen⟩)
  return io ++ asBytes name

/-- `do_write_subnet_distance`. -/
def doWriteSubnetDistance (io : List UInt8) (netAddress : NetAddress) (typeHandle : LocalTypeKey)
    (metric : Option RouteMetric) : Except WriteError (List UInt8) :=
  putHeader io (.subnetDistance ⟨netAddress, typeHandle, metric⟩)

/-- The end of `write_known_message` and of `write_opaque_message`. -/
def doWriteMessage (io : List UInt8) (header : EnvelopeHeader) (ttl : UInt8)
    (messageType : LocalTypeKey) (body : List UInt8) : Except WriteError (List UInt8) := do
  let payloadSize ← tryIntoU16 .messageTooLarge body.length
  let io ← putHeader io (.transmitMessage ⟨header.dst, messageType, header.traceId, header.no,
    payloadSize, ttl, header.priority⟩)
  return io ++ body

/-- The type is written, and then inserted into `declared_types`. -/
def insertDeclared (w : OutputWriter TypeId M) (messageType : LocalTypeKey) (name : MessageName) :
    Except WriteError (OutputWriter TypeId M) := do
  let io ← doWriteDeclareType w.ioW messageType name
  return { w with ioW := io, declaredTypes := w.declaredTypes ++ [(messageType, name)] }

/-- The declaration of a type that is not declared yet; its name is what the manager answers. -/
def declareVacant (w : OutputWriter TypeId M) (messageType : LocalTypeKey)
    (answer : Option MessageName) : Except WriteError (OutputWriter TypeId M) :=
  match w.declaredTypes.lookup messageType with
  | some _ => .ok w
  | none =>
    match answer with
    | none => .error .getMessageName
    | some name => w.insertDeclared messageType name

/-- `write_keep_alive`. -/
def writeKeepAlive (w : OutputWriter TypeId M) : Except WriteError (OutputWriter TypeId M) := do
  let io ← putHeader w.ioW .keepAlive
  return { w with ioW := io }

/-- `write_delcare_type`. -/
def writeDeclareType (w : OutputWriter TypeId M) (messageType : LocalTypeKey)
    (name : MessageName) : Except WriteError (OutputWriter TypeId M) :=
  match w.declaredTypes.lookup messageType with
  | some old => if old = name then .ok w else .error (.twoNames messageType old name)
  | none => w.insertDeclared messageType name

/-- `write_subnet_distance`. -/
def writeSubnetDistance (w : OutputWriter TypeId M) (route : SetRoute)
    (answer : Option MessageName) : Except WriteError (OutputWriter TypeId M) := do
  let w ← w.declareVacant route.message answer
  let io ← doWriteSubnetDistance w.ioW route.destination route.message route.metric
  return { w with ioW := io }

/-- `write_known_message`. -/
def writeKnownMessage (tid : M → TypeId) (w : OutputWriter TypeId M) (header : EnvelopeHeader)
    (message : M) : Except WriteError (OutputWriter TypeId M) :=
  match checkedPred header.ttl with
  | none => .ok w
  | some ttl =>
    match w.outboundByTypeId (tid message) with
    | none => .error .noCodec
    | some (messageType, codec) =>
      match w.declaredTypes.lookup messageType, codec message with
      | none, _ => .error .notDeclared
      | some _, none => .error .encodeMessage
      | some _, some body => do
        let io ← doWriteMessage w.ioW header ttl messageType body
        return { w with ioW := io }

/-- `write_opaque_message`. -/
def writeOpaqueMessage (w : OutputWriter TypeId M) (header : EnvelopeHeader) (toForward : Forward)
    (answer : Option MessageName) : Except WriteError (OutputWriter TypeId M) :=
  match checkedPred header.ttl with
  | none => .ok w
  | some ttl => do
    let w ← w.declareVacant toForward.localTypeKey answer
    let io ← doWriteMessage w.ioW header ttl toForward.localTypeKey toForward.body
    return { w with ioW := io }

/-- An operation of the writer. -/
inductive Op (M : Type)
  | declareType (messageType : LocalTypeKey) (name : MessageName)
  | keepAlive
  | subnetDistance (route : SetRoute) (answer : Option MessageName)
  | knownMessage (header : EnvelopeHeader) (message : M)
  | opaqueMessage (header : EnvelopeHeader) (toForward : Forward) (answer : Option MessageName)

variable (tid : M → TypeId)

def exec (w : OutputWriter TypeId M) : Op M → Except WriteError (OutputWriter TypeId M)
  | .declareType messageType name => w.writeDeclareType messageType name
  | .keepAlive => w.writeKeepAlive
  | .subnetDistance route answer => w.writeSubnetDistance route answer
  | .knownMessage header message => writeKnownMessage tid w header message
  | .opaqueMessage header toForward answer => w.writeOpaqueMessage header toForward answer

def run (w : OutputWriter TypeId M) (ops : List (Op M)) :
    Except WriteError (OutputWriter TypeId M) := ops.foldlM (exec tid) w

/-! ### The PDUs of an operation -/

/-- The declaration of a type, unless it is declared. -/
def declaration (declared : List (LocalTypeKey × MessageName)) (messageType : LocalTypeKey)
    (name : Option MessageName) : List Pdu :=
  match declared.lookup messageType with
  | some _ => []
  | none => (name.map (Pdu.declareType messageType)).toList

/-- A message on the wire: the hop is taken off its TTL, and one without any left is dropped. -/
def message (header : EnvelopeHeader) (messageType : LocalTypeKey) (body : List UInt8) : Pdu :=
  .transmitMessage ⟨header.dst, header.traceId, header.no, header.ttl - 1, header.priority,
    messageType, body⟩

end OutputWriter

/-- The type that a PDU declares. -/
def Pdu.declares : Pdu → Option (LocalTypeKey × MessageName)
  | declareType key name => some (key, name)
  | _ => none

/-- The message that a PDU carries. -/
def Pdu.received : Pdu → Option ReceivedMessage
  | transmitMessage m => some m
  | _ => none

/-- The type that a PDU names, its declaration apart. -/
def Pdu.uses : Pdu → Option LocalTypeKey
  | subnetDistance h => some h.typeHandle
  | transmitMessage m => some m.foreignTypeKey
  | _ => none

namespace OutputWriter

variable {TypeId M : Type} (tid : M → TypeId) {declared : List (LocalTypeKey × MessageName)}
  {key : LocalTypeKey} {name : MessageName} {header : EnvelopeHeader} {io io' : List UInt8}
  {p : Pdu}

/-- What an operation is to put on the wire, after the types that are declared. -/
def Op.pdus (outbound : TypeId → Option (LocalTypeKey × ErasedCodec M))
    (declared : List (LocalTypeKey × MessageName)) : Op M → List Pdu
  | .declareType messageType name => declaration declared messageType name
  | .keepAlive => [.keepAlive]
  | .subnetDistance route answer =>
    declaration declared route.message answer ++
      [.subnetDistance ⟨route.destination, route.message, route.metric⟩]
  | .knownMessage header m =>
    if header.ttl = 0 then []
    else
      match outbound (tid m) with
      | none => []
      | some (messageType, codec) => ((codec m).map (message header messageType)).toList
  | .opaqueMessage header toForward answer =>
    if header.ttl = 0 then []
    else declaration declared toForward.localTypeKey answer ++
      [message header toForward.localTypeKey toForward.body]

/-- What a list of operations is to put on the wire. -/
def allPdus (outbound : TypeId → Option (LocalTypeKey × ErasedCodec M)) :
    List (LocalTypeKey × MessageName) → List (Op M) → List Pdu
  | _, [] => []
  | declared, op :: ops =>
    let pdus := op.pdus tid outbound declared
    pdus ++ allPdus outbound (declared ++ pdus.filterMap Pdu.declares) ops

/-! ### What is written -/

theorem lookup_eq_none_iff : declared.lookup key = none ↔ key ∉ declared.map Prod.fst := by
  rw [List.lookup_eq_none_iff]
  constructor
  · intro h hmem
    obtain ⟨p, hp, rfl⟩ := List.mem_map.mp hmem
    simpa using h p hp
  · intro h p hp
    exact bne_iff_ne.mpr fun heq => h (heq ▸ List.mem_map_of_mem hp)

theorem mem_of_lookup_eq_some (h : declared.lookup key = some name) : key ∈ declared.map Prod.fst :=
  by_contra fun hnot => by simp [lookup_eq_none_iff.mpr hnot] at h

/-- A type is declared once, and before it is used. -/
def WellDeclared : List (LocalTypeKey × MessageName) → List Pdu → Prop
  | _, [] => True
  | declared, p :: pdus =>
    (∀ q, p.declares = some q → q.1 ∉ declared.map Prod.fst) ∧
      (∀ key, p.uses = some key → key ∈ declared.map Prod.fst) ∧
        WellDeclared (declared ++ p.declares.toList) pdus

theorem filterMap_declares_cons (p : Pdu) (pdus : List Pdu) :
    (p :: pdus).filterMap Pdu.declares = p.declares.toList ++ pdus.filterMap Pdu.declares := by
  cases h : p.declares <;> simp [h]

theorem WellDeclared.append {pdus pdus' : List Pdu} (h : WellDeclared declared pdus)
    (h' : WellDeclared (declared ++ pdus.filterMap Pdu.declares) pdus') :
    WellDeclared declared (pdus ++ pdus') := by
  induction pdus generalizing declared with
  | nil => simpa using h'
  | cons p pdus ih =>
    obtain ⟨hnew, huses, hrest⟩ := h
    rw [filterMap_declares_cons, ← append_assoc] at h'
    exact ⟨hnew, huses, ih hrest h'⟩

/-- No type is declared twice. -/
private theorem WellDeclared.nodup {pdus : List Pdu} (h : WellDeclared declared pdus)
    (hd : (declared.map Prod.fst).Nodup) :
    ((declared ++ pdus.filterMap Pdu.declares).map Prod.fst).Nodup := by
  induction pdus generalizing declared with
  | nil => simpa using hd
  | cons p pdus ih =>
    obtain ⟨hnew, -, hrest⟩ := h
    rw [filterMap_declares_cons, ← append_assoc]
    refine ih hrest ?_
    cases hp : p.declares with
    | none => simpa using hd
    | some q =>
      rw [Option.toList_some, map_append, map_singleton]
      exact hd.append (nodup_singleton _) (disjoint_singleton.mpr (hnew q hp))

private theorem WellDeclared.declared_of_uses {before after : List Pdu}
    (h : WellDeclared declared (before ++ p :: after)) (hp : p.uses = some key) :
    key ∈ (declared ++ before.filterMap Pdu.declares).map Prod.fst := by
  induction before generalizing declared with
  | nil => simpa using h.2.1 key hp
  | cons q before ih =>
    rw [filterMap_declares_cons, ← append_assoc]
    exact ih h.2.2

/-- A writer has written some PDUs. -/
structure Wrote (w : OutputWriter TypeId M) (pdus : List Pdu) (w' : OutputWriter TypeId M) :
    Prop where
  ioW : w'.ioW = w.ioW ++ pdus.flatMap Pdu.bytes
  declaredTypes : w'.declaredTypes = w.declaredTypes ++ pdus.filterMap Pdu.declares
  outbound : w'.outboundByTypeId = w.outboundByTypeId
  fits : ∀ p ∈ pdus, p.Fits
  wellDeclared : WellDeclared w.declaredTypes pdus

namespace Wrote

variable {w w₁ w' : OutputWriter TypeId M} {pdus pdus' : List Pdu}

private theorem nil (w : OutputWriter TypeId M) : Wrote w [] w :=
  ⟨by simp, by simp, rfl, by simp, trivial⟩

private theorem append (h : Wrote w pdus w₁) (h' : Wrote w₁ pdus' w') :
    Wrote w (pdus ++ pdus') w' where
  ioW := by rw [h'.ioW, h.ioW, flatMap_append, append_assoc]
  declaredTypes := by
    rw [h'.declaredTypes, h.declaredTypes, filterMap_append, append_assoc]
  outbound := h'.outbound.trans h.outbound
  fits p hp := (mem_append.mp hp).elim (h.fits p) (h'.fits p)
  wellDeclared := h.wellDeclared.append (h.declaredTypes ▸ h'.wellDeclared)

/-- A PDU that declares nothing. -/
private theorem one (w : OutputWriter TypeId M) (hfits : p.Fits) (hdeclares : p.declares = none)
    (huses : ∀ key, p.uses = some key → key ∈ w.declaredTypes.map Prod.fst) :
    Wrote w [p] { w with ioW := w.ioW ++ p.bytes } where
  ioW := by simp
  declaredTypes := by simp [hdeclares]
  outbound := rfl
  fits := by simpa using hfits
  wellDeclared := ⟨fun q hq => by rw [hdeclares] at hq; contradiction, huses, trivial⟩

/-- A PDU that names a type that is declared. -/
private theorem one_of_mem (hfits : p.Fits) (hdeclares : p.declares = none)
    (huses : p.uses = some key) (hmem : key ∈ w.declaredTypes.map Prod.fst) :
    Wrote w [p] { w with ioW := w.ioW ++ p.bytes } :=
  .one w hfits hdeclares fun _ hkey => Option.some.inj (huses.symm.trans hkey) ▸ hmem

end Wrote

private theorem of_tryIntoU16_eq_ok {e : WriteError} {n : ℕ} {x : UInt16}
    (h : tryIntoU16 e n = .ok x) : n < 2 ^ 16 ∧ UInt16.ofNat n = x := by
  rw [tryIntoU16] at h
  split at h
  · next hlt => exact ⟨hlt, Except.ok.inj h⟩
  · contradiction

theorem putHeader_eq (io : List UInt8) (header : Header LocalTypeKey) :
    putHeader io header = .ok (io ++ header.frame) := by
  rw [putHeader, writeHeader_eq]

private theorem doWriteDeclareType_spec {messageType : LocalTypeKey}
    (h : doWriteDeclareType io messageType name = .ok io') :
    (Pdu.declareType messageType name).Fits ∧
      io' = io ++ (Pdu.declareType messageType name).bytes := by
  obtain ⟨len, hlen, h⟩ := exists_of_bind_eq_ok h
  obtain ⟨hfits, rfl⟩ := of_tryIntoU16_eq_ok hlen
  rw [putHeader_eq] at h
  obtain rfl : _ = io' := Except.ok.inj h
  exact ⟨hfits, append_assoc ..⟩

/-- The bytes of a message. -/
private theorem doWriteMessage_spec {ttl : UInt8} {messageType : LocalTypeKey} {body : List UInt8}
    (httl : checkedPred header.ttl = some ttl)
    (h : doWriteMessage io header ttl messageType body = .ok io') :
    (message header messageType body).Fits ∧
      io' = io ++ (message header messageType body).bytes := by
  obtain ⟨size, hsize, h⟩ := exists_of_bind_eq_ok h
  obtain ⟨hfits, rfl⟩ := of_tryIntoU16_eq_ok hsize
  obtain rfl := (checkedPred_eq_some_iff.mp httl).2
  rw [putHeader_eq] at h
  obtain rfl : _ = io' := Except.ok.inj h
  exact ⟨hfits, append_assoc ..⟩

variable {w w' : OutputWriter TypeId M} {messageType : LocalTypeKey} {answer : Option MessageName}

/-- A new declaration. -/
private theorem insertDeclared_spec (hnew : w.declaredTypes.lookup messageType = none)
    (h : w.insertDeclared messageType name = .ok w') :
    Wrote w [.declareType messageType name] w' := by
  obtain ⟨io, hio, h⟩ := exists_of_bind_eq_ok h
  obtain ⟨hfits, rfl⟩ := doWriteDeclareType_spec hio
  obtain rfl : _ = w' := Except.ok.inj h
  refine ⟨by simp, by simp [Pdu.declares], rfl, by simpa using hfits, ?_⟩
  refine ⟨fun q hq => ?_, fun key hkey => by contradiction, trivial⟩
  obtain rfl : _ = q := Option.some.inj hq
  exact lookup_eq_none_iff.mp hnew

/-- A type is declared before its use. -/
private theorem declareVacant_spec (h : w.declareVacant messageType answer = .ok w') :
    Wrote w (declaration w.declaredTypes messageType answer) w' ∧
      messageType ∈ w'.declaredTypes.map Prod.fst := by
  rw [declareVacant.eq_def] at h
  split at h
  · next name hlookup =>
    obtain rfl : w = w' := Except.ok.inj h
    rw [declaration, hlookup]
    exact ⟨.nil w, mem_of_lookup_eq_some hlookup⟩
  · next hlookup =>
    split at h
    · contradiction
    · have hwrote := insertDeclared_spec hlookup h
      rw [declaration, hlookup]
      refine ⟨hwrote, ?_⟩
      rw [hwrote.declaredTypes]
      simp [Pdu.declares]

private theorem writeDeclareType_spec (h : w.writeDeclareType messageType name = .ok w') :
    Wrote w (declaration w.declaredTypes messageType name) w' := by
  rw [writeDeclareType] at h
  split at h
  · next old hlookup =>
    split at h
    · obtain rfl : w = w' := Except.ok.inj h
      rw [declaration, hlookup]
      exact .nil w
    · contradiction
  · next hlookup =>
    rw [declaration, hlookup]
    exact insertDeclared_spec hlookup h

private theorem writeKeepAlive_spec (h : w.writeKeepAlive = .ok w') : Wrote w [.keepAlive] w' := by
  rw [writeKeepAlive, putHeader_eq] at h
  obtain rfl : _ = w' := Except.ok.inj h
  exact .one w (p := .keepAlive) trivial rfl fun key hkey => by contradiction

private theorem writeSubnetDistance_spec {route : SetRoute}
    (h : w.writeSubnetDistance route answer = .ok w') :
    Wrote w (declaration w.declaredTypes route.message answer ++
      [.subnetDistance ⟨route.destination, route.message, route.metric⟩]) w' := by
  obtain ⟨w₁, hdeclare, h⟩ := exists_of_bind_eq_ok h
  obtain ⟨hwrote, hmem⟩ := declareVacant_spec hdeclare
  rw [doWriteSubnetDistance, putHeader_eq] at h
  obtain rfl : _ = w' := Except.ok.inj h
  exact hwrote.append (.one_of_mem (p := .subnetDistance _) trivial rfl rfl hmem)

/-- What is written for a known message. -/
private theorem writeKnownMessage_spec {m : M} (h : w.writeKnownMessage tid header m = .ok w') :
    Wrote w ((Op.knownMessage header m).pdus tid w.outboundByTypeId w.declaredTypes) w' := by
  rw [writeKnownMessage] at h
  split at h
  · next httl =>
    obtain rfl : w = w' := Except.ok.inj h
    rw [Op.pdus, if_pos (checkedPred_eq_none_iff.mp httl)]
    exact .nil w
  · next ttl httl =>
    rw [Op.pdus, if_neg (checkedPred_eq_some_iff.mp httl).1]
    split at h
    · contradiction
    · next messageType codec houtbound =>
      split at h
      · contradiction
      · contradiction
      · next name body hlookup hbody =>
        obtain ⟨io, hio, h⟩ := exists_of_bind_eq_ok h
        obtain ⟨hfits, rfl⟩ := doWriteMessage_spec httl hio
        obtain rfl : _ = w' := Except.ok.inj h
        simp only [hbody, Option.map_some, Option.toList_some]
        exact .one_of_mem hfits rfl rfl (mem_of_lookup_eq_some hlookup)

/-- What is written for a message that is passed on. -/
private theorem writeOpaqueMessage_spec {toForward : Forward}
    (h : w.writeOpaqueMessage header toForward answer = .ok w') :
    Wrote w (if header.ttl = 0 then []
      else declaration w.declaredTypes toForward.localTypeKey answer ++
        [message header toForward.localTypeKey toForward.body]) w' := by
  rw [writeOpaqueMessage] at h
  split at h
  · next httl =>
    obtain rfl : w = w' := Except.ok.inj h
    rw [if_pos (checkedPred_eq_none_iff.mp httl)]
    exact .nil w
  · next ttl httl =>
    obtain ⟨w₁, hdeclare, h⟩ := exists_of_bind_eq_ok h
    obtain ⟨hwrote, hmem⟩ := declareVacant_spec hdeclare
    obtain ⟨io, hio, h⟩ := exists_of_bind_eq_ok h
    obtain ⟨hfits, rfl⟩ := doWriteMessage_spec httl hio
    obtain rfl : _ = w' := Except.ok.inj h
    rw [if_neg (checkedPred_eq_some_iff.mp httl).1]
    exact hwrote.append (.one_of_mem hfits rfl rfl hmem)

/-- **What an operation writes.** One that succeeds writes the PDUs that it is to write. -/
theorem exec_spec {op : Op M} (h : exec tid w op = .ok w') :
    Wrote w (op.pdus tid w.outboundByTypeId w.declaredTypes) w' := by
  cases op with
  | declareType messageType name => exact writeDeclareType_spec h
  | keepAlive => exact writeKeepAlive_spec h
  | subnetDistance route answer => exact writeSubnetDistance_spec h
  | knownMessage header m => exact writeKnownMessage_spec tid h
  | opaqueMessage header toForward answer => exact writeOpaqueMessage_spec h

/-- What a list of operations writes. -/
private theorem run_spec {ops : List (Op M)} (h : run tid w ops = .ok w') :
    Wrote w (allPdus tid w.outboundByTypeId w.declaredTypes ops) w' := by
  induction ops generalizing w with
  | nil =>
    obtain rfl : w = w' := Except.ok.inj h
    exact .nil w
  | cons op ops ih =>
    rw [run, foldlM_cons] at h
    obtain ⟨w₁, hop, h⟩ := exists_of_bind_eq_ok h
    have hwrote := exec_spec tid hop
    have hrest := ih h
    rw [hwrote.declaredTypes, hwrote.outbound] at hrest
    exact hwrote.append hrest

/-- The operation with which `run` of the connection declares a type of the protocol. -/
def Op.ofOutbound (p : MessageName × LocalTypeKey) : Op M := .declareType p.2 p.1

/-- **The peer reads what was written.** The types of the protocol are declared first, then any
operations follow; if they all succeed, every header fits the frame, the peer's read loop finds
exactly the PDUs of the operations, with nothing left over, and each type is declared once and
before the first PDU that names it. -/
theorem readLoop_run {outboundByTypeId : TypeId → Option (LocalTypeKey × ErasedCodec M)}
    {outbound : List (MessageName × LocalTypeKey)} {ops : List (Op M)}
    (h : run tid (new outboundByTypeId) (outbound.map Op.ofOutbound ++ ops) = .ok w') :
    let pdus := allPdus tid outboundByTypeId [] (outbound.map Op.ofOutbound ++ ops)
    (∀ header : Header LocalTypeKey,
      ((Header.codec KeyData.codec).encode header).length ≤ headerFrameSize) ∧
    readLoop w'.ioW = (pdus, .eof []) ∧
    ((pdus.filterMap Pdu.declares).map Prod.fst).Nodup ∧
    ∀ before p after, pdus = before ++ p :: after → ∀ key, p.uses = some key →
      key ∈ (before.filterMap Pdu.declares).map Prod.fst := by
  have hwrote := run_spec tid h
  have hdeclared : WellDeclared [] (allPdus tid outboundByTypeId []
    (outbound.map Op.ofOutbound ++ ops)) := hwrote.wellDeclared
  refine ⟨Header.length_encode_le, ?_, ?_, fun before p after heq key hkey => ?_⟩
  · rw [hwrote.ioW]
    exact readLoop_flatMap_bytes hwrote.fits
  · simpa using hdeclared.nodup nodup_nil
  · rw [heq] at hdeclared
    simpa using hdeclared.declared_of_uses hkey

/-- A protocol with one message, whose key is `⟨1, 1⟩`. -/
def sampleOutbound (_ : Unit) : Option (LocalTypeKey × ErasedCodec Unit) :=
  some (.deserialize 1 1, fun _ => some [7, 8])

/-- A message with TTL 3, a keep-alive, a message with TTL 0, and the distance of a subnet for a
type that the protocol does not have. -/
def sampleOps : List (Op Unit) :=
  [.knownMessage ⟨⟨0xa101#64⟩, 3, true, 5, 6⟩ (), .keepAlive,
    .knownMessage ⟨⟨0xa101#64⟩, 0, true, 5, 6⟩ (),
    .subnetDistance ⟨.deserialize 2 1, ⟨⟨0xf00#64⟩, ⟨52, by decide⟩⟩, none, some 1⟩ (some "b")]

/-- The message without any TTL left contributes nothing, and the type of the distance is
declared right before it. -/
theorem readLoop_run_lazy_declaration :
    ∃ w, run id (new sampleOutbound) ([("a", .deserialize 1 1)].map Op.ofOutbound ++ sampleOps) =
        .ok w ∧
      readLoop w.ioW =
        ([.declareType (.deserialize 1 1) "a",
          .transmitMessage ⟨⟨0xa101#64⟩, 6, 5, 2, true, .deserialize 1 1, [7, 8]⟩, .keepAlive,
          .declareType (.deserialize 2 1) "b",
          .subnetDistance ⟨⟨⟨0xf00#64⟩, ⟨52, by decide⟩⟩, .deserialize 2 1, some 1⟩], .eof []) := by
  obtain ⟨w, hrun⟩ : ∃ w, run id (new sampleOutbound)
    ([("a", .deserialize 1 1)].map Op.ofOutbound ++ sampleOps) = .ok w := ⟨_, rfl⟩
  exact ⟨w, hrun, (readLoop_run id hrun).2.1⟩

end OutputWriter

end Mm1
