import Mm1.Lib.Codec
import Mm1.Multinode.RouteRegistry

/-!
# The bytes of a connection

A PDU of a connection is a header and, for two kinds of them, a body whose length the header says.
A header is encoded with `bincode` into a frame of `HEADER_FRAME_SIZE` bytes; what the encoding
leaves of the frame is zeros, which the reader drops.

* `Header.codec`: the encoding of the headers, which never fills the frame;
* `readPdu_bytes`: what is read from the bytes of a PDU is the PDU, and nothing after it is touched;
* `readLoop_flatMap_bytes`: the read loop finds the PDUs one after another.
-/

namespace Mm1

open Fallible List Codec

/-! ### The encoding of the fields -/

namespace KeyData

/-- `KeyData::deserialize` of `slotmap`: any two numbers give a key. -/
def deserialize (idx version : UInt32) : KeyData where
  idx := idx
  version := (if idx = 0xffffffff then 1 else version) ||| 1
  version_odd := by
    rw [UInt32.toNat_or]
    exact Nat.or_mod_two_eq_one.mpr (.inr rfl)
  version_of_null h := by
    rw [if_pos h]
    rfl

/-- A key is read back. -/
private theorem deserialize_self (k : KeyData) : deserialize k.idx k.version = k := by
  obtain ⟨idx, version, hodd, hnull⟩ := k
  have hor : version ||| 1 = version := by
    refine UInt32.toNat_inj.mp ?_
    have hdiv : (version.toNat ||| 1) / 2 = version.toNat / 2 := by simp [Nat.or_div_two]
    have hmod : (version.toNat ||| 1) % 2 = 1 := Nat.or_mod_two_eq_one.mpr (.inr rfl)
    rw [UInt32.toNat_or]
    exact (by omega : version.toNat ||| 1 = version.toNat)
  rw [deserialize, mk.injEq]
  refine ⟨rfl, ?_⟩
  change (if idx = 0xffffffff then 1 else version) ||| 1 = version
  split_ifs with h
  · rw [hnull h]
    rfl
  · exact hor

/-- A key is its two numbers. -/
def codec : Codec KeyData :=
  (u32.pair u32).map (fun p => deserialize p.1 p.2) (fun k => (k.idx, k.version))
    deserialize_self

end KeyData

/-- The word of an address. -/
def Address.codec : Codec Address := u64.map Address.mk Address.intoU64 fun _ => rfl

/-- `NetMask` is read through the `TryFrom` that checks its bound. -/
def NetMask.codec : Codec NetMask :=
  byte.filterMap
    (fun bits => if h : bits.toNat ≤ 64 then some ⟨bits.toNat, h⟩ else none)
    (fun m => UInt8.ofNat m.bitsFixed) fun m => by
      obtain ⟨bits, hbits⟩ := m
      have hbyte : (UInt8.ofNat bits).toNat = bits := by
        rw [UInt8.toNat_ofNat']
        exact Nat.mod_eq_of_lt (by omega)
      simp [hbyte, hbits]

/-- The pair of the address and the mask. -/
def NetAddress.codec : Codec NetAddress :=
  (Address.codec.pair NetMask.codec).map (fun p => ⟨p.1, p.2⟩) (fun n => (n.address, n.mask))
    fun _ => rfl

/-- The key of a message type on the node of the peer. -/
abbrev ForeignTypeKey := KeyData

/-! ### Headers -/

/-- `pdu::Hello`. -/
abbrev Hello := {b : List UInt8 // b.length = 30}

/-- `pdu::SubnetDistance`. -/
structure SubnetDistance (K : Type) where
  netAddress : NetAddress
  typeHandle : K
  metric : Option RouteMetric
  deriving DecidableEq

/-- `pdu::DeclareType`. -/
structure DeclareType (K : Type) where
  messageType : K
  typeNameLen : UInt16
  deriving DecidableEq

/-- `pdu::TransmitMessage`. -/
structure TransmitMessage (K : Type) where
  dstAddress : Address
  messageType : K
  traceId : TraceId
  originSeqNo : U64
  payloadSize : UInt16
  ttl : UInt8
  priority : Bool
  deriving DecidableEq

/-- `pdu::Header`. -/
inductive Header (K : Type)
  | hello (h : Hello)
  | keepAlive
  | subnetDistance (h : SubnetDistance K)
  | declareType (h : DeclareType K)
  | transmitMessage (h : TransmitMessage K)
  deriving DecidableEq

section Codec

variable {K : Type} (key : Codec K)

def SubnetDistance.codec : Codec (SubnetDistance K) :=
  (NetAddress.codec.pair (key.pair byte.option)).map (fun p => ⟨p.1, p.2.1, p.2.2⟩)
    (fun h => (h.netAddress, h.typeHandle, h.metric)) fun _ => rfl

def DeclareType.codec : Codec (DeclareType K) :=
  (key.pair u16).map (fun p => ⟨p.1, p.2⟩) (fun h => (h.messageType, h.typeNameLen))
    fun _ => rfl

def TransmitMessage.codec : Codec (TransmitMessage K) :=
  (Address.codec.pair (key.pair (u64.pair (u64.pair (u16.pair (byte.pair bool)))))).map
    (fun ⟨dst, messageType, trace, no, size, ttl, priority⟩ =>
      ⟨dst, messageType, trace, no, size, ttl, priority⟩)
    (fun h => (h.dstAddress, h.messageType, h.traceId, h.originSeqNo, h.payloadSize, h.ttl,
      h.priority))
    fun _ => rfl

namespace Header

/-- The number of a variant, then its fields. -/
def encode : Header K → List UInt8
  | hello h => u32.encode 0 ++ (bytes 30).encode h
  | keepAlive => u32.encode 1
  | subnetDistance h => u32.encode 2 ++ (SubnetDistance.codec key).encode h
  | declareType h => u32.encode 3 ++ (DeclareType.codec key).encode h
  | transmitMessage h => u32.encode 4 ++ (TransmitMessage.codec key).encode h

def decode (input : List UInt8) : Option (Header K × List UInt8) := do
  let (variant, rest) ← u32.decode input
  match variant with
  | 0 => ((bytes 30).decode rest).map fun p => (hello p.1, p.2)
  | 1 => some (keepAlive, rest)
  | 2 => ((SubnetDistance.codec key).decode rest).map fun p => (subnetDistance p.1, p.2)
  | 3 => ((DeclareType.codec key).decode rest).map fun p => (declareType p.1, p.2)
  | 4 => ((TransmitMessage.codec key).decode rest).map fun p => (transmitMessage p.1, p.2)
  | _ => none

/-- The longest header is a `TransmitMessage`. -/
def codec : Codec (Header K) where
  encode := encode key
  decode := decode key
  maxLength := 37 + key.maxLength
  length_encode_le header := by
    have htag (n : UInt32) : (u32.encode n).length ≤ 5 := u32.length_encode_le n
    cases header with
    | hello h =>
      have hbody := (bytes 30).length_encode_le h
      have := htag 0
      simp only [encode, length_append, maxLength_bytes] at hbody ⊢
      omega
    | keepAlive =>
      have := htag 1
      simp only [encode]
      omega
    | subnetDistance h =>
      have hbody := (SubnetDistance.codec key).length_encode_le h
      have := htag 2
      simp only [encode, length_append, SubnetDistance.codec, NetAddress.codec,
        NetMask.codec, Address.codec, maxLength_map, maxLength_pair,
        maxLength_filterMap, maxLength_option, maxLength_u64,
        maxLength_byte] at hbody ⊢
      omega
    | declareType h =>
      have hbody := (DeclareType.codec key).length_encode_le h
      have := htag 3
      simp only [encode, length_append, DeclareType.codec, maxLength_map,
        maxLength_pair, maxLength_u16] at hbody ⊢
      omega
    | transmitMessage h =>
      have hbody := (TransmitMessage.codec key).length_encode_le h
      have := htag 4
      simp only [encode, length_append, TransmitMessage.codec, Address.codec,
        maxLength_map, maxLength_pair, maxLength_u64, maxLength_u16,
        maxLength_byte, maxLength_bool] at hbody ⊢
      omega
  decode_encode header rest := by
    cases header <;> simp [encode, decode]

end Header

end Codec

/-! ### Frames -/

/-- `HEADER_FRAME_SIZE`: the size of a header in memory. -/
def headerFrameSize : ℕ := 48

theorem Header.length_encode_le (header : Header KeyData) :
    ((codec KeyData.codec).encode header).length ≤ headerFrameSize :=
  (codec KeyData.codec).length_encode_le header |>.trans (by decide)

/-- What can go wrong when something is read. -/
inductive ReadError
  /-- `read_exact` has fewer bytes than it wants -/
  | eof (unread : List UInt8)
  | decodeHeader
  | unexpectedHello
  | nonUtf8Name
  deriving DecidableEq

/-- `read_exact`. -/
def readBuf (n : ℕ) (input : List UInt8) : Except ReadError (List UInt8 × List UInt8) :=
  match readExact n input with
  | none => .error (.eof input)
  | some p => .ok p

private theorem readBuf_append {n : ℕ} {buf : List UInt8} (h : buf.length = n) (rest : List UInt8) :
    readBuf n (buf ++ rest) = .ok (buf, rest) := by
  rw [readBuf, readExact_eq_some_iff.mpr ⟨rfl, h⟩]

private theorem length_of_readBuf {n : ℕ} {input buf rest : List UInt8}
    (h : readBuf n input = .ok (buf, rest)) : input.length = n + rest.length := by
  rw [readBuf] at h
  split at h
  · contradiction
  · next p hp =>
    obtain rfl : p = (buf, rest) := Except.ok.inj h
    obtain ⟨rfl, rfl⟩ := readExact_eq_some_iff.mp hp
    rw [length_append]

/-- `read_header`: a whole frame is read, and what follows the header in it is dropped. -/
def readHeader (input : List UInt8) : Except ReadError (Header ForeignTypeKey × List UInt8) := do
  let (buf, rest) ← readBuf headerFrameSize input
  match (Header.codec KeyData.codec).decode buf with
  | none => .error .decodeHeader
  | some (header, _) => .ok (header, rest)

/-- `write_header`: `encode_into_slice` fails if the buffer is too short. -/
def writeHeader (header : Header LocalTypeKey) : Option (List UInt8) :=
  let bytes := (Header.codec KeyData.codec).encode header
  if bytes.length ≤ headerFrameSize then some (pad headerFrameSize bytes) else none

/-- The frame of a header. -/
def Header.frame (header : Header LocalTypeKey) : List UInt8 :=
  pad headerFrameSize ((codec KeyData.codec).encode header)

@[simp]
theorem writeHeader_eq (header : Header LocalTypeKey) : writeHeader header = some header.frame :=
  if_pos header.length_encode_le

@[simp]
theorem Header.length_frame (header : Header LocalTypeKey) :
    header.frame.length = headerFrameSize :=
  length_pad header.length_encode_le

@[simp]
theorem readHeader_frame (header : Header LocalTypeKey) (rest : List UInt8) :
    readHeader (header.frame ++ rest) = .ok (header, rest) := by
  rw [readHeader, readBuf_append header.length_frame]
  simp only [bind, Except.bind, Header.frame, decode_pad]

/-! ### PDUs -/

/-- What the read loop reports of a message (`ReceivedMessage`). -/
structure ReceivedMessage where
  dstAddress : Address
  traceId : TraceId
  originSeqNo : U64
  ttl : UInt8
  priority : Bool
  foreignTypeKey : ForeignTypeKey
  body : List UInt8
  deriving DecidableEq

/-- A header with its body. -/
inductive Pdu
  | keepAlive
  | declareType (key : ForeignTypeKey) (name : String)
  | subnetDistance (h : SubnetDistance ForeignTypeKey)
  | transmitMessage (m : ReceivedMessage)
  deriving DecidableEq

/-- What the read loop does with a header. -/
def readBody (header : Header ForeignTypeKey) (input : List UInt8) :
    Except ReadError (Pdu × List UInt8) :=
  match header with
  | .hello _ => .error .unexpectedHello
  | .keepAlive => .ok (.keepAlive, input)
  | .declareType h => do
    let (buf, rest) ← readBuf h.typeNameLen.toNat input
    match String.fromUTF8? ⟨buf.toArray⟩ with
    | none => .error .nonUtf8Name
    | some name => .ok (.declareType h.messageType name, rest)
  | .subnetDistance h => .ok (.subnetDistance h, input)
  | .transmitMessage h => do
    let (buf, rest) ← readBuf h.payloadSize.toNat input
    .ok (.transmitMessage ⟨h.dstAddress, h.traceId, h.originSeqNo, h.ttl, h.priority,
      h.messageType, buf⟩, rest)

/-- One turn of the read loop. -/
def readPdu (input : List UInt8) : Except ReadError (Pdu × List UInt8) := do
  let (header, rest) ← readHeader input
  readBody header rest

variable {input rest : List UInt8} {header : Header ForeignTypeKey} {p : Pdu}

private theorem length_of_readHeader (h : readHeader input = .ok (header, rest)) :
    input.length = headerFrameSize + rest.length := by
  obtain ⟨⟨buf, rest'⟩, hread, h⟩ := exists_of_bind_eq_ok h
  simp only at h
  split at h
  · contradiction
  · obtain ⟨rfl, rfl⟩ := eq_of_ok_mk h
    exact length_of_readBuf hread

/-- A body takes bytes from the input. -/
private theorem length_le_of_readBody (h : readBody header input = .ok (p, rest)) :
    rest.length ≤ input.length := by
  cases header with
  | hello _ => contradiction
  | keepAlive => exact (congrArg List.length (eq_of_ok_mk h).2).ge
  | declareType d =>
    obtain ⟨⟨buf, rest'⟩, hread, h⟩ := exists_of_bind_eq_ok h
    simp only at h
    split at h
    · contradiction
    · obtain ⟨-, rfl⟩ := eq_of_ok_mk h
      exact (length_of_readBuf hread).symm ▸ Nat.le_add_left ..
  | subnetDistance _ => exact (congrArg List.length (eq_of_ok_mk h).2).ge
  | transmitMessage t =>
    obtain ⟨⟨buf, rest'⟩, hread, h⟩ := exists_of_bind_eq_ok h
    obtain ⟨-, rfl⟩ := eq_of_ok_mk h
    exact (length_of_readBuf hread).symm ▸ Nat.le_add_left ..

/-- A turn of the loop takes at least a frame. -/
private theorem length_lt_of_readPdu (h : readPdu input = .ok (p, rest)) :
    rest.length < input.length := by
  obtain ⟨⟨header, rest'⟩, hheader, h⟩ := exists_of_bind_eq_ok h
  have hbody := length_le_of_readBody h
  have hframe := length_of_readHeader hheader
  rw [headerFrameSize] at hframe
  omega

/-- At most so many turns of the read loop: the PDUs that it reports, and the error that ends it. -/
def readTurns : ℕ → List UInt8 → List Pdu × ReadError
  | 0, input => ([], .eof input)
  | turns + 1, input =>
    match readPdu input with
    | .error e => ([], e)
    | .ok (p, rest) => (p :: (readTurns turns rest).1, (readTurns turns rest).2)

/-- The read loop. A turn takes a byte at least, so that it ends within these turns
(`readLoop_eq`). -/
def readLoop (input : List UInt8) : List Pdu × ReadError := readTurns (input.length + 1) input

/-- More turns than bytes are enough. -/
private theorem readTurns_eq {turns turns' : ℕ} {input : List UInt8} (h : input.length < turns)
    (h' : input.length < turns') : readTurns turns input = readTurns turns' input := by
  induction turns generalizing turns' input with
  | zero => exact absurd h (Nat.not_lt_zero _)
  | succ turns ih =>
    obtain ⟨turns', rfl⟩ := Nat.exists_eq_succ_of_ne_zero (Nat.ne_zero_of_lt h')
    cases hp : readPdu input with
    | error e => simp only [readTurns, hp]
    | ok q =>
      have hlt : q.2.length < input.length := length_lt_of_readPdu hp
      have hrest : readTurns turns q.2 = readTurns turns' q.2 := ih (by omega) (by omega)
      simp only [readTurns, hp, hrest]

/-- The turns of the loop. -/
private theorem readLoop_eq (input : List UInt8) :
    readLoop input =
      match readPdu input with
      | .error e => ([], e)
      | .ok (p, rest) => (p :: (readLoop rest).1, (readLoop rest).2) := by
  cases hp : readPdu input with
  | error e => simp only [readLoop, readTurns, hp]
  | ok q =>
    have hlt : q.2.length < input.length := length_lt_of_readPdu hp
    have hturns : readTurns input.length q.2 = readLoop q.2 := readTurns_eq hlt (Nat.lt_succ_self _)
    simp only [← hturns]
    simp only [readLoop, readTurns, hp]

/-- The UTF-8 bytes of a text. -/
def asBytes (s : String) : List UInt8 := s.toUTF8.data.toList

private theorem fromUTF8?_asBytes (s : String) :
    String.fromUTF8? ⟨(asBytes s).toArray⟩ = some s := by
  rw [asBytes, Array.toArray_toList]
  exact dif_pos s.isValidUTF8

namespace Pdu

/-- The bytes of a PDU. -/
def bytes : Pdu → List UInt8
  | keepAlive => Header.keepAlive.frame
  | declareType key name =>
    (Header.declareType ⟨key, UInt16.ofNat (asBytes name).length⟩).frame ++ asBytes name
  | subnetDistance h => (Header.subnetDistance h).frame
  | transmitMessage m =>
    (Header.transmitMessage ⟨m.dstAddress, m.foreignTypeKey, m.traceId, m.originSeqNo,
      UInt16.ofNat m.body.length, m.ttl, m.priority⟩).frame ++ m.body

/-- The length of the body is a `u16`. -/
def Fits : Pdu → Prop
  | declareType _ name => (asBytes name).length < 2 ^ 16
  | transmitMessage m => m.body.length < 2 ^ 16
  | _ => True

end Pdu

theorem toNat_ofNat_u16 {n : ℕ} (h : n < 2 ^ 16) : (UInt16.ofNat n).toNat = n := by
  rw [UInt16.toNat_ofNat']
  exact Nat.mod_eq_of_lt h

/-- **What is read from the bytes of a PDU is the PDU.** -/
theorem readPdu_bytes (h : p.Fits) (rest : List UInt8) :
    readPdu (p.bytes ++ rest) = .ok (p, rest) := by
  cases p with
  | keepAlive =>
    rw [readPdu, Pdu.bytes, readHeader_frame]
    rfl
  | declareType key name =>
    have hread := readBuf_append (toNat_ofNat_u16 h).symm rest
    rw [readPdu, Pdu.bytes, append_assoc, readHeader_frame]
    simp only [bind, Except.bind, readBody, hread, fromUTF8?_asBytes]
  | subnetDistance h =>
    rw [readPdu, Pdu.bytes, readHeader_frame]
    rfl
  | transmitMessage m =>
    have hread := readBuf_append (toNat_ofNat_u16 h).symm rest
    rw [readPdu, Pdu.bytes, append_assoc, readHeader_frame]
    simp only [bind, Except.bind, readBody, hread]

/-- **The read loop finds the PDUs one after another**, and ends between two frames. -/
theorem readLoop_flatMap_bytes {pdus : List Pdu} (h : ∀ p ∈ pdus, p.Fits) :
    readLoop (pdus.flatMap Pdu.bytes) = (pdus, .eof []) := by
  induction pdus with
  | nil => rfl
  | cons p pdus ih =>
    have hp := readPdu_bytes (h p mem_cons_self) (pdus.flatMap Pdu.bytes)
    have hrest := ih fun q hq => h q (mem_cons_of_mem p hq)
    rw [flatMap_cons, readLoop_eq, hp]
    simp only [hrest]

end Mm1
