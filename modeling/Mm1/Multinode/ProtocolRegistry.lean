import Mm1.Lib.Fallible
import Mm1.Lib.History
import Mm1.Lib.Roster
import Mm1.Multinode.Writer

/-!
# The protocol registry

The protocols of a node, and the codecs of their messages. A message type is known by its name: the
first codec with a name gets a key, and the key goes over the wire and into the routes. A codec is
either known, with a `TypeId`, or opaque, with a name only. A known one takes the place of an
opaque one with the same name, and not the other way round.

* `Registers`: all that the registration of a codec can do;
* `Inv`: names and keys are in bijection, and each `TypeId` has the key of its name;
* `registry_exact_of_runs`: `Inv` and the life of a key, over every run of `register_protocol`,
  `unregister_protocol` and `register_message`.
-/

namespace Mm1

open Fallible Option List Function Roster

/-- The name of a protocol. -/
abbrev ProtocolName := String

/-- `RegisterProtocolErrorKind` -/
inductive RegisterProtocolErrorKind where
  | duplicateProtocolName
  deriving DecidableEq

/-- `UnregisterProtocolErrorKind` -/
inductive UnregisterProtocolErrorKind where
  | noProtocol
  | protocolInUse
  deriving DecidableEq

variable {TypeId : Type} {typeName : TypeId → MessageName} {j : LocalTypeKey} {name : ProtocolName}
  {t : TypeId}

/-- What the registry asks of a codec (`ErasedCodecApi`). The name of a known codec is the name of
its type. -/
structure ErasedCodecApi (typeName : TypeId → MessageName) where
  tid : Option TypeId
  name : MessageName
  name_eq : ∀ t ∈ tid, name = typeName t

/-- `Known<T>` -/
def ErasedCodecApi.known (t : TypeId) : ErasedCodecApi typeName where
  tid := some t
  name := typeName t
  name_eq := by simp

/-- `Opaque` -/
def ErasedCodecApi.nameOnly (name : MessageName) : ErasedCodecApi typeName where
  tid := none
  name
  name_eq := by simp

/-- `Protocol`. A protocol is built by `add_type`, or of the codecs of other protocols, so that all
its codecs are known, and no two of them have the same name. -/
structure Protocol (typeName : TypeId → MessageName) where
  codecs : List (ErasedCodecApi typeName)
  known : ∀ c ∈ codecs, c.tid.isSome = true
  nodup : (codecs.map ErasedCodecApi.name).Nodup

namespace Protocol

/-- `Protocol::new` -/
def new : Protocol typeName := ⟨[], by simp, nodup_nil⟩

/-- `Protocol::add_type` -/
def addType (p : Protocol typeName) (t : TypeId) : Protocol typeName :=
  if h : typeName t ∈ p.codecs.map ErasedCodecApi.name then p
  else
    { codecs := p.codecs ++ [.known t]
      known := by
        intro c hc
        rcases mem_append.mp hc with hc | hc
        · exact p.known c hc
        · rw [mem_singleton.mp hc]
          rfl
      nodup := by
        rw [map_append, nodup_append]
        refine ⟨p.nodup, nodup_singleton _, ?_⟩
        rintro a ha b hb rfl
        obtain rfl : a = typeName t := mem_singleton.mp hb
        exact h ha }

/-- `Protocol::outbound_types` -/
def outboundTypes (p : Protocol typeName) : List (ErasedCodecApi typeName) := p.codecs

/-- `Protocol::inbound_types` -/
def inboundTypes (p : Protocol typeName) : List (ErasedCodecApi typeName) := p.codecs

end Protocol

/-- `ProtocolRegistry` -/
structure ProtocolRegistry (typeName : TypeId → MessageName) where
  protocols : ProtocolName → Option (Protocol typeName)
  codecs : Roster LocalTypeKey (ErasedCodecApi typeName)
  codecByName : MessageName → Option LocalTypeKey
  codecByTypeId : TypeId → Option LocalTypeKey

/-- What ends the code that calls the registry. -/
inductive RegistryPanic where
  /-- `codec.tid().expect("should have a type-id")` -/
  | noTypeId
  /-- `assert!(codec.tid().is_none())` -/
  | hasTypeId
  /-- `codecs[codec_key]` -/
  | noCodec
  /-- the slot map has no key left -/
  | full
  deriving DecidableEq

namespace ProtocolRegistry

/-- `ProtocolRegistry::default` -/
def empty : ProtocolRegistry typeName := ⟨fun _ => none, .empty, fun _ => none, fun _ => none⟩

section Operations

variable [DecidableEq TypeId] (slots : Slots LocalTypeKey)

/-- `register_known_message` -/
def registerKnownMessage (r : ProtocolRegistry typeName) (codec : ErasedCodecApi typeName) :
    Except RegistryPanic (LocalTypeKey × ProtocolRegistry typeName) :=
  match codec.tid with
  | none => .error .noTypeId
  | some typeId =>
    match r.codecByTypeId typeId with
    | some existing => .ok (existing, r)
    | none =>
      match r.codecByName codec.name with
      | none =>
        match r.codecs.insert? slots codec with
        | none => .error .full
        | some (codecKey, codecs) =>
          .ok (codecKey, { r with
              codecs
              codecByName := update r.codecByName codec.name (some codecKey)
              codecByTypeId := update r.codecByTypeId typeId (some codecKey) })
      | some codecKey =>
        match r.codecs.lookup codecKey with
        | none => .error .noCodec
        | some _ =>
          .ok (codecKey, { r with
              codecs := r.codecs.modify codecKey fun _ => codec
              codecByTypeId := update r.codecByTypeId typeId (some codecKey) })

/-- `register_opaque_codec` -/
def registerOpaqueCodec (r : ProtocolRegistry typeName) (codec : ErasedCodecApi typeName) :
    Except RegistryPanic (LocalTypeKey × ProtocolRegistry typeName) :=
  match codec.tid with
  | some _ => .error .hasTypeId
  | none =>
    match r.codecByName codec.name with
    | some existing => .ok (existing, r)
    | none =>
      match r.codecs.insert? slots codec with
      | none => .error .full
      | some (codecKey, codecs) =>
        .ok (codecKey, { r with
            codecs
            codecByName := update r.codecByName codec.name (some codecKey) })

/-- `ProtocolRegistry::register_message` -/
def registerMessage (r : ProtocolRegistry typeName) (codec : ErasedCodecApi typeName) :
    Except RegistryPanic (LocalTypeKey × ProtocolRegistry typeName) :=
  if codec.tid.isSome then r.registerKnownMessage slots codec else r.registerOpaqueCodec slots codec

/-- The loop of `register_protocol` over the codecs. -/
def registerKnownMessages (r : ProtocolRegistry typeName) :
    List (ErasedCodecApi typeName) → Except RegistryPanic (ProtocolRegistry typeName)
  | [] => .ok r
  | codec :: rest => do
    let (_, r) ← r.registerKnownMessage slots codec
    r.registerKnownMessages rest

/-- `ProtocolRegistry::register_protocol` -/
def registerProtocol (r : ProtocolRegistry typeName) (name : ProtocolName)
    (protocol : Protocol typeName) :
    Except RegistryPanic
      (ProtocolRegistry typeName × Except (ErrorOf RegisterProtocolErrorKind) Unit) :=
  match r.protocols name with
  | some _ => .ok (r, .error ⟨.duplicateProtocolName, "duplicate protocol name"⟩)
  | none => do
    let r ← r.registerKnownMessages slots (protocol.outboundTypes ++ protocol.inboundTypes)
    return ({ r with protocols := update r.protocols name (some protocol) }, .ok ())

end Operations

/-- `ProtocolRegistry::unregister_protocol`. Whether the protocol is in use is not up to the
registry. -/
def unregisterProtocol (r : ProtocolRegistry typeName) (name : ProtocolName) (inUse : Bool) :
    ProtocolRegistry typeName × Except (ErrorOf UnregisterProtocolErrorKind) Unit :=
  match r.protocols name with
  | none => (r, .error ⟨.noProtocol, "no such protocol"⟩)
  | some _ =>
    if inUse then (r, .error ⟨.protocolInUse, "protocol in use"⟩)
    else ({ r with protocols := update r.protocols name none }, .ok ())

/-- `ProtocolRegistry::protocol_by_name` -/
def protocolByName (r : ProtocolRegistry typeName) (name : ProtocolName) :
    Option (Protocol typeName) := r.protocols name

/-- `ProtocolRegistry::message_name_by_key` -/
def messageNameByKey (r : ProtocolRegistry typeName) (key : LocalTypeKey) :
    Except RegistryPanic MessageName :=
  match r.codecs.lookup key with
  | none => .error .noCodec
  | some codec => .ok codec.name

/-! ### What a registration can do -/

variable [DecidableEq TypeId] {slots : Slots LocalTypeKey}

/-- All that the registration of a codec can do, with the key that it returns. -/
inductive Registers (r : ProtocolRegistry typeName) (c : ErasedCodecApi typeName) :
    LocalTypeKey → ProtocolRegistry typeName → Prop
  | byTypeId {t : TypeId} {k : LocalTypeKey} (ht : c.tid = some t)
      (hk : r.codecByTypeId t = some k) : Registers r c k r
  | byName {k : LocalTypeKey} (ht : c.tid = none) (hk : r.codecByName c.name = some k) :
      Registers r c k r
  /-- a known codec takes the place of another one -/
  | replaced {t : TypeId} {k : LocalTypeKey} (ht : c.tid = some t)
      (hk : r.codecByName c.name = some k) :
      Registers r c k
        { r with
          codecs := r.codecs.modify k fun _ => c
          codecByTypeId := update r.codecByTypeId t (some k) }
  | known {t : TypeId} {k : LocalTypeKey} (ht : c.tid = some t)
      (hname : r.codecByName c.name = none) (hk : r.codecs.lookup k = none) :
      Registers r c k
        { r with
          codecs := r.codecs.push k c hk
          codecByName := update r.codecByName c.name (some k)
          codecByTypeId := update r.codecByTypeId t (some k) }
  | nameOnly {k : LocalTypeKey} (ht : c.tid = none)
      (hname : r.codecByName c.name = none) (hk : r.codecs.lookup k = none) :
      Registers r c k
        { r with
          codecs := r.codecs.push k c hk
          codecByName := update r.codecByName c.name (some k) }

variable {r r' : ProtocolRegistry typeName} {c : ErasedCodecApi typeName} {k : LocalTypeKey}

/-- The `TypeId` of the codec has a key. -/
def Knows (r : ProtocolRegistry typeName) (c : ErasedCodecApi typeName) (k : LocalTypeKey) : Prop :=
  ∃ t, c.tid = some t ∧ r.codecByTypeId t = some k

omit [DecidableEq TypeId] in
theorem Knows.unique (h : r.Knows c k) (h' : r.Knows c j) : k = j := by
  obtain ⟨t, ht, hk⟩ := h
  obtain ⟨t', ht', hj⟩ := h'
  obtain rfl := some.inj (ht.symm.trans ht')
  exact some.inj (hk.symm.trans hj)

theorem registerMessage_of_knows (h : r.Knows c k) : r.registerMessage slots c = .ok (k, r) := by
  obtain ⟨t, ht, hk⟩ := h
  simp [registerMessage, registerKnownMessage, ht, hk]

/-! ### The invariant -/

/-- The three tables agree. -/
structure Inv (r : ProtocolRegistry typeName) : Prop where
  /-- names and keys are in bijection, and the codec under a key bears the name -/
  names : ∀ name k, r.codecByName name = some k ↔ ∃ c, r.codecs.lookup k = some c ∧ c.name = name
  /-- a `TypeId` has the key of its name, and a known codec is there -/
  types : ∀ t k, r.codecByTypeId t = some k →
    r.codecByName (typeName t) = some k ∧ ∃ c, r.codecs.lookup k = some c ∧ c.tid.isSome = true

omit [DecidableEq TypeId] in
theorem inv_empty : (empty : ProtocolRegistry typeName).Inv where
  names _ _ := by simp [empty]
  types _ _ h := by simp [empty] at h

/-- What is registered stays so: names keep their keys, and known codecs are not lost. -/
structure Grows (r r' : ProtocolRegistry typeName) : Prop where
  names : ∀ name k, r.codecByName name = some k → r'.codecByName name = some k
  codecs : ∀ k c, r.codecs.lookup k = some c →
    ∃ c', r'.codecs.lookup k = some c' ∧ c'.name = c.name ∧
      (c.tid.isSome = true → c'.tid.isSome = true)

omit [DecidableEq TypeId] in
theorem Grows.refl (r : ProtocolRegistry typeName) : Grows r r where
  names _ _ h := h
  codecs _ c h := ⟨c, h, rfl, id⟩

omit [DecidableEq TypeId] in
theorem Grows.trans {r'' : ProtocolRegistry typeName} (h : Grows r r') (h' : Grows r' r'') :
    Grows r r'' where
  names name k hk := h'.names name k (h.names name k hk)
  codecs k c hc := by
    obtain ⟨c', hc', hname, hknown⟩ := h.codecs k c hc
    obtain ⟨c'', hc'', hname', hknown'⟩ := h'.codecs k c' hc'
    exact ⟨c'', hc'', hname'.trans hname, fun hc => hknown' (hknown hc)⟩

section Steps

variable (hinv : r.Inv)

include hinv

omit [DecidableEq TypeId] in
/-- A codec with a new name gets a new key. -/
private theorem Inv.names_push (hname : r.codecByName c.name = none) (hk : r.codecs.lookup k = none)
    (name : MessageName) (j : LocalTypeKey) :
    update r.codecByName c.name (some k) name = some j ↔
      ∃ c', (r.codecs.push k c hk).lookup j = some c' ∧ c'.name = name := by
  rw [lookup_push, update_apply]
  by_cases hjk : j = k
  · subst hjk
    by_cases hn : name = c.name
    · simp [hn]
    · have hnot : r.codecByName name ≠ some j := by
        intro hj
        obtain ⟨c', hc', -⟩ := (hinv.names name j).mp hj
        rw [hk] at hc'
        contradiction
      simp [hn, hnot, Ne.symm hn]
  · by_cases hn : name = c.name
    · subst hn
      have hnot := (hinv.names c.name j).not.mp (by simp [hname])
      simpa [hjk, Ne.symm hjk] using hnot
    · simpa [hjk, hn] using hinv.names name j

omit [DecidableEq TypeId] in
/-- The codec under a key gives way to one with the same name. -/
private theorem Inv.names_modify (hk : r.codecByName c.name = some k) (name : MessageName)
    (j : LocalTypeKey) :
    r.codecByName name = some j ↔
      ∃ c', (r.codecs.modify k fun _ => c).lookup j = some c' ∧ c'.name = name := by
  rw [lookup_modify, hinv.names name j]
  obtain ⟨c₀, hc₀, hname⟩ := (hinv.names c.name k).mp hk
  by_cases hjk : j = k
  · simp [hjk, hc₀, hname]
  · simp [hjk]

omit [DecidableEq TypeId] hinv in
/-- The tables after a codec with a new name, for what was there before. -/
private theorem grows_push {byTypeId : TypeId → Option LocalTypeKey}
    (hname : r.codecByName c.name = none) (hk : r.codecs.lookup k = none) :
    Grows r
      { r with
        codecs := r.codecs.push k c hk
        codecByName := update r.codecByName c.name (some k)
        codecByTypeId := byTypeId } where
  names name j hj := by
    have hne : name ≠ c.name := by
      rintro rfl
      rw [hname] at hj
      contradiction
    simpa [update_of_ne hne] using hj
  codecs j c' hj := by
    have hne : j ≠ k := by
      rintro rfl
      rw [hk] at hj
      contradiction
    exact ⟨c', by simpa [lookup_push, hne] using hj, rfl, id⟩

section Registered

variable (h : Registers r c k r')

include h

/-- A registration loses nothing. -/
theorem Registers.grows : Grows r r' := by
  cases h with
  | byTypeId | byName => exact .refl r
  | known _ hname hk | nameOnly _ hname hk => exact grows_push hname hk
  | @replaced t _ ht hk =>
    refine ⟨fun _ _ h => h, fun j c' hj => ?_⟩
    obtain ⟨c₀, hc₀, hname⟩ := (hinv.names c.name k).mp hk
    rw [lookup_modify]
    by_cases hjk : j = k
    · subst hjk
      obtain rfl : c₀ = c' := some.inj (hc₀.symm.trans hj)
      exact ⟨c, by simp [hj], hname.symm, fun _ => by simp [ht]⟩
    · exact ⟨c', by simpa [hjk] using hj, rfl, id⟩

theorem Registers.codecByName : r'.codecByName c.name = some k := by
  cases h with
  | @byTypeId t _ ht hk => rw [c.name_eq t ht]; exact (hinv.types t k hk).1
  | byName _ hk | replaced _ hk => exact hk
  | known | nameOnly => exact update_self ..

/-- A known codec is known under its key. -/
private theorem Registers.isKnown (hc : c.tid.isSome = true) :
    ∃ c', r'.codecs.lookup k = some c' ∧ c'.tid.isSome = true := by
  cases h with
  | @byTypeId t _ ht hk => exact (hinv.types t k hk).2
  | byName ht | nameOnly ht => simp [ht] at hc
  | replaced ht hk =>
    obtain ⟨c₀, hc₀, -⟩ := (hinv.names c.name k).mp hk
    exact ⟨c, by simp [lookup_modify, hc₀], hc⟩
  | known => exact ⟨c, by simp [lookup_push], hc⟩

omit hinv in
/-- A new entry of the table of `TypeId`s is the one of the codec. -/
private theorem Registers.codecByTypeId (hj : r'.codecByTypeId t = some j) :
    r.codecByTypeId t = some j ∨ c.tid = some t ∧ j = k := by
  cases h with
  | byTypeId | byName | nameOnly => exact .inl hj
  | @replaced t' _ ht | @known t' _ ht =>
    by_cases htt : t = t'
    · subst htt
      exact .inr ⟨ht, by simpa [eq_comm] using hj⟩
    · exact .inl (by simpa [update_of_ne htt] using hj)

omit hinv in
/-- A known codec is entered in the table of `TypeId`s. -/
private theorem Registers.codecByTypeId_eq (ht : c.tid = some t) :
    r'.codecByTypeId = update r.codecByTypeId t (some k) := by
  cases h with
  | byName ht' | nameOnly ht' => simp [ht] at ht'
  | byTypeId ht' hk =>
    obtain rfl := some.inj (ht.symm.trans ht')
    rw [← hk, update_eq_self]
  | replaced ht' | known ht' =>
    obtain rfl := some.inj (ht.symm.trans ht')
    rfl

omit hinv in
/-- What has a key has one after a registration, and so has the codec that was registered. -/
theorem Registers.knows (hc : c.tid.isSome = true) {d : ErasedCodecApi typeName}
    (hd : d = c ∨ ∃ j, r.Knows d j) : ∃ j, r'.Knows d j := by
  obtain ⟨t, ht⟩ := isSome_iff_exists.mp hc
  have htids := h.codecByTypeId_eq ht
  rcases hd with rfl | ⟨j, t', ht', hj⟩
  · exact ⟨k, t, ht, by rw [htids, update_self]⟩
  · by_cases heq : t' = t
    · exact ⟨k, t', ht', by rw [htids, heq, update_self]⟩
    · exact ⟨j, t', ht', by rw [htids, update_of_ne heq, hj]⟩

/-- A registration keeps the invariant. -/
theorem Registers.inv : r'.Inv := by
  refine ⟨?_, fun t j hj => ?_⟩
  · cases h with
    | byTypeId | byName => exact hinv.names
    | replaced _ hk => exact hinv.names_modify hk
    | known _ hname hk | nameOnly _ hname hk => exact hinv.names_push hname hk
  · rcases h.codecByTypeId hj with hj | ⟨ht, rfl⟩
    · obtain ⟨hname, c', hc', hknown⟩ := hinv.types t j hj
      obtain ⟨c'', hc'', -, hknown'⟩ := (h.grows hinv).codecs j c' hc'
      exact ⟨(h.grows hinv).names _ _ hname, c'', hc'', hknown' hknown⟩
    · have hname := h.codecByName hinv
      rw [c.name_eq t ht] at hname
      exact ⟨hname, h.isKnown hinv (by simp [ht])⟩

end Registered

end Steps

omit [DecidableEq TypeId] in
/-- The key of a name has the name. -/
theorem Inv.messageNameByKey (hinv : r.Inv) {name : MessageName}
    (h : r.codecByName name = some k) : r.messageNameByKey k = .ok name := by
  obtain ⟨c, hc, rfl⟩ := (hinv.names name k).mp h
  rw [ProtocolRegistry.messageNameByKey, hc]

omit [DecidableEq TypeId] in
private theorem Inv.lookup_ne_none (hinv : r.Inv) {name : MessageName}
    (h : r.codecByName name = some k) : r.codecs.lookup k ≠ none := by
  obtain ⟨c, hc, -⟩ := (hinv.names name k).mp h
  simp [hc]

/-- Only a full slot map ends a registration, where the tables agree. -/
private theorem registerKnownMessage_spec (hc : c.tid.isSome = true) :
    Ensures (fun e => r.Inv → e = .full) (fun res => Registers r c res.1 res.2)
      (r.registerKnownMessage slots c) := by
  rw [registerKnownMessage]
  split
  case h_1 ht => simp [ht] at hc
  case h_2 t ht =>
    split
    case h_1 k hk => exact .byTypeId ht hk
    case h_2 =>
      split
      case h_1 hname =>
        split
        case h_1 => exact fun _ => rfl
        case h_2 k codecs hins =>
          obtain ⟨hk, rfl⟩ := Roster.insert?_eq_some hins
          exact .known ht hname hk
      case h_2 k hk =>
        split
        case h_1 hnone => exact fun hinv => absurd hnone (hinv.lookup_ne_none hk)
        case h_2 => exact .replaced ht hk

private theorem registerOpaqueCodec_spec (hc : c.tid = none) :
    Ensures (· = .full) (fun res => Registers r c res.1 res.2)
      (r.registerOpaqueCodec slots c) := by
  rw [registerOpaqueCodec]
  split
  case h_1 ht => simp [ht] at hc
  case h_2 =>
    split
    case h_1 k hk => exact .byName hc hk
    case h_2 hname =>
      split
      case h_1 => exact rfl
      case h_2 k codecs hins =>
        obtain ⟨hk, rfl⟩ := Roster.insert?_eq_some hins
        exact .nameOnly hc hname hk

/-- What was registered, in any tables. -/
theorem registers_of_registerMessage (h : r.registerMessage slots c = .ok (k, r')) :
    Registers r c k r' := by
  rw [registerMessage] at h
  split at h
  case isTrue hc => exact (registerKnownMessage_spec hc).of_ok h
  case isFalse hc => exact (registerOpaqueCodec_spec (by simpa using hc)).of_ok h

theorem registerMessage_spec (hinv : r.Inv) :
    Ensures (· = .full) (fun res => Registers r c res.1 res.2) (r.registerMessage slots c) := by
  rw [registerMessage]
  split
  case isTrue hc => exact (registerKnownMessage_spec hc).mono_error fun _ he => he hinv
  case isFalse hc => exact registerOpaqueCodec_spec (by simpa using hc)

theorem Registers.protocols (h : Registers r c k r') : r'.protocols = r.protocols := by
  cases h <;> rfl

/-- A name that has a key gets it again. -/
private theorem registerMessage_of_codecByName (slots : Slots LocalTypeKey) (hinv : r.Inv)
    (hk : r.codecByName c.name = some k) : ∃ r', r.registerMessage slots c = .ok (k, r') := by
  cases ht : c.tid with
  | none => exact ⟨r, by simp [registerMessage, registerOpaqueCodec, ht, hk]⟩
  | some t =>
    cases hbt : r.codecByTypeId t with
    | none =>
      obtain ⟨c₀, hc₀⟩ := ne_none_iff_exists'.mp (hinv.lookup_ne_none hk)
      exact ⟨_, by simp [registerMessage, registerKnownMessage, ht, hbt, hk, hc₀]; rfl⟩
    | some j =>
      have hj := (hinv.types t j hbt).1
      rw [← c.name_eq t ht, hk] at hj
      obtain rfl := some.inj hj
      exact ⟨r, by simp [registerMessage, registerKnownMessage, ht, hbt]⟩

/-- An opaque codec leaves the others as they are. -/
private theorem Registers.lookup_of_nameOnly (h : Registers r c k r') (hc : c.tid = none)
    {c' : ErasedCodecApi typeName} (hj : r.codecs.lookup j = some c') :
    r'.codecs.lookup j = some c' := by
  cases h with
  | byTypeId | byName => exact hj
  | replaced ht | known ht => simp [hc] at ht
  | nameOnly _ _ hk =>
    have hne : j ≠ k := by
      rintro rfl
      rw [hk] at hj
      contradiction
    simpa [lookup_push, hne] using hj

/-! ### Protocols -/

/-- The codecs of a protocol are registered. -/
private theorem registerKnownMessages_spec {cs : List (ErasedCodecApi typeName)} (hinv : r.Inv)
    (hcs : ∀ c ∈ cs, c.tid.isSome = true) :
    Ensures (· = .full)
      (fun r' => r'.Inv ∧ Grows r r' ∧ r'.protocols = r.protocols ∧
        ∀ c, c ∈ cs ∨ (∃ k, r.Knows c k) → ∃ k, r'.Knows c k)
      (r.registerKnownMessages slots cs) := by
  induction cs generalizing r with
  | nil => exact ⟨hinv, .refl r, rfl, fun c hc => hc.resolve_left not_mem_nil⟩
  | cons c cs ih =>
    obtain ⟨hc, hcs⟩ := forall_mem_cons.mp hcs
    refine ((registerKnownMessage_spec hc).mono_error fun _ he => he hinv).bind ?_
    rintro ⟨k, r₁⟩ hstep
    refine (ih (hstep.inv hinv) hcs).mono fun r' ⟨hinv', hgrows, hprot, hknows⟩ => ?_
    refine ⟨hinv', (hstep.grows hinv).trans hgrows, hprot.trans hstep.protocols, fun d hd => ?_⟩
    have hnext := hstep.knows hc (d := d)
    refine hknows d ?_
    rcases hd with hd | hd
    · exact (mem_cons.mp hd).symm.imp id fun heq => hnext (.inl heq)
    · exact .inr (hnext (.inr hd))

/-- What `register_protocol` does. -/
theorem registerProtocol_spec {protocol : Protocol typeName} (hinv : r.Inv) :
    Ensures (· = .full)
      (fun res => res.1.Inv ∧ Grows r res.1 ∧ (r.protocols name ≠ none ∧ res.1 = r ∧
            res.2 = .error ⟨.duplicateProtocolName, "duplicate protocol name"⟩ ∨
          r.protocols name = none ∧
            res.1.protocols = update r.protocols name (some protocol) ∧ res.2 = .ok () ∧
            ∀ c ∈ protocol.codecs, ∃ k, res.1.Knows c k))
      (r.registerProtocol slots name protocol) := by
  rw [registerProtocol]
  split
  case h_1 p hp => exact ⟨hinv, .refl r, .inl ⟨by simp [hp], rfl, rfl⟩⟩
  case h_2 hp =>
    have hknown : ∀ c ∈ protocol.outboundTypes ++ protocol.inboundTypes, c.tid.isSome = true := by
      intro c hc
      rcases mem_append.mp hc with hc | hc <;> exact protocol.known c hc
    refine (registerKnownMessages_spec hinv hknown).bind ?_
    rintro r₁ ⟨hinv', hgrows, hprot, hknows⟩
    exact ⟨⟨hinv'.names, hinv'.types⟩, ⟨hgrows.names, hgrows.codecs⟩, .inr ⟨hp, by rw [hprot], rfl,
      fun c hc => hknows c (.inl (mem_append_left _ hc))⟩⟩

omit [DecidableEq TypeId] in
/-- What `unregister_protocol` does. -/
theorem unregisterProtocol_spec {inUse : Bool} (hinv : r.Inv) :
    (r.unregisterProtocol name inUse).1.Inv ∧ Grows r (r.unregisterProtocol name inUse).1 ∧
      ∀ name', r.protocols name' = none →
        (r.unregisterProtocol name inUse).1.protocols name' = none := by
  rw [unregisterProtocol]
  split
  · exact ⟨hinv, .refl r, fun _ h => h⟩
  · split
    · exact ⟨hinv, .refl r, fun _ h => h⟩
    · refine ⟨⟨hinv.names, hinv.types⟩, ⟨fun _ _ h => h, fun _ c h => ⟨c, h, rfl, id⟩⟩, ?_⟩
      intro name' h
      simp only [update_apply]
      split
      · rfl
      · exact h

/-! ### Runs -/

/-- A call of the registry. -/
inductive Call (typeName : TypeId → MessageName) where
  | registerProtocol (name : ProtocolName) (protocol : Protocol typeName)
  | unregisterProtocol (name : ProtocolName) (inUse : Bool)
  | registerMessage (codec : ErasedCodecApi typeName)

/-- Make a call, with the key that `register_message` returns. -/
def call (slots : Slots LocalTypeKey) (r : ProtocolRegistry typeName) :
    Call typeName → Option (ProtocolRegistry typeName × Option LocalTypeKey)
  | .registerProtocol name protocol =>
    (r.registerProtocol slots name protocol).toOption.map fun res => (res.1, none)
  | .unregisterProtocol name inUse => some ((r.unregisterProtocol name inUse).1, none)
  | .registerMessage codec =>
    (r.registerMessage slots codec).toOption.map fun res => (res.2, some res.1)

/-- The registry with the calls that were made of it, the latest first. -/
abbrev Run (typeName : TypeId → MessageName) :=
  History.Logged (ProtocolRegistry typeName) (Call typeName) (Option LocalTypeKey)

/-- The runs of a registry: calls in any order. -/
abbrev Runs (slots : Slots LocalTypeKey) (s : Run typeName) : Prop :=
  Transition.Reaches (History.step (call slots)) (fun _ _ => True) (.start empty) s

/-- What a call does. -/
theorem call_spec {call : Call typeName} {out : Option LocalTypeKey} (hinv : r.Inv)
    (h : r.call slots call = some (r', out)) :
    r'.Inv ∧ Grows r r' ∧
      ∀ c k, call = .registerMessage c → out = some k → r'.codecByName c.name = some k := by
  cases call with
  | registerProtocol name protocol =>
    obtain ⟨res, hres, heq⟩ := map_eq_some_iff.mp h
    obtain ⟨rfl, rfl⟩ := Prod.mk.inj heq
    obtain ⟨hinv', hgrows, -⟩ := (registerProtocol_spec hinv).of_ok (eq_ok_of_toOption hres)
    exact ⟨hinv', hgrows, by simp⟩
  | unregisterProtocol name inUse =>
    obtain ⟨rfl, rfl⟩ := Prod.mk.inj (some.inj h)
    obtain ⟨hinv', hgrows, -⟩ := unregisterProtocol_spec hinv
    exact ⟨hinv', hgrows, by simp⟩
  | registerMessage c =>
    obtain ⟨res, hres, heq⟩ := map_eq_some_iff.mp h
    obtain ⟨rfl, rfl⟩ := Prod.mk.inj heq
    have hreg := (registerMessage_spec hinv).of_ok (eq_ok_of_toOption hres)
    refine ⟨hreg.inv hinv, hreg.grows hinv, ?_⟩
    rintro _ _ ⟨⟩ ⟨⟩
    exact hreg.codecByName hinv

/-- The tables agree in every run. -/
theorem inv_of_runs {s : Run typeName} (h : Runs slots s) :
    s.state.Inv ∧ ∀ e ∈ s.log, ∀ c k, e.label = .registerMessage c → e.output = some k →
      s.state.codecByName c.name = some k := by
  refine History.log_invariant (P := fun r log => r.Inv ∧
    ∀ e ∈ log, ∀ c k, e.label = .registerMessage c → e.output = some k →
      r.codecByName c.name = some k) h ?_ ?_
  · exact ⟨inv_empty, by simp⟩
  · rintro r r' log call out ⟨hinv, hlog⟩ - hcall
    obtain ⟨hinv', hgrows, hout⟩ := call_spec hinv hcall
    refine ⟨hinv', forall_mem_cons.mpr ⟨hout, fun e he c k hl ho => ?_⟩⟩
    exact hgrows.names _ _ (hlog e he c k hl ho)

/-- **The registry is exact.** After any calls: names and keys are in bijection, and the codec under
a key bears its name; each `TypeId` has the key of its name, under which there is a known codec; the
keys that were returned are still those of their names; a known codec gets the key that its name
has, is known under it from then on, and its `TypeId` has the key; an opaque codec leaves the others
as they are; and a protocol that is registered is there afterwards, and all its codecs are. -/
theorem registry_exact_of_runs {s : Run typeName} (h : Runs slots s) :
    (∀ name k, s.state.codecByName name = some k ↔
      ∃ c, s.state.codecs.lookup k = some c ∧ c.name = name) ∧
    (∀ t k, s.state.codecByTypeId t = some k → s.state.codecByName (typeName t) = some k ∧
        ∃ c, s.state.codecs.lookup k = some c ∧ c.tid.isSome = true) ∧
    (∀ e ∈ s.log, ∀ c k, e.label = .registerMessage c → e.output = some k →
      s.state.codecByName c.name = some k ∧ s.state.messageNameByKey k = .ok c.name) ∧
    (∀ c k, c.tid.isSome = true → s.state.codecByName c.name = some k →
      ∃ r', s.state.registerMessage slots c = .ok (k, r') ∧
        ∃ c', r'.codecs.lookup k = some c' ∧ c'.name = c.name ∧ c'.tid.isSome = true) ∧
    (∀ c t k r', c.tid = some t → s.state.registerMessage slots c = .ok (k, r') →
      r'.codecByTypeId = update s.state.codecByTypeId t (some k)) ∧
    (∀ c k r', c.tid = none → s.state.registerMessage slots c = .ok (k, r') →
      ∀ j c', s.state.codecs.lookup j = some c' → r'.codecs.lookup j = some c') ∧
    ∀ name protocol r', s.state.registerProtocol slots name protocol = .ok (r', .ok ()) →
      r'.protocols = update s.state.protocols name (some protocol) ∧
        ∀ c ∈ protocol.codecs, ∃ t k, c.tid = some t ∧ r'.codecByTypeId t = some k ∧
          r'.codecByName c.name = some k := by
  obtain ⟨hinv, hlog⟩ := inv_of_runs h
  refine ⟨hinv.names, hinv.types, fun e he c k hl ho => ?_, fun c k hc hk => ?_,
    fun c t k r' ht hreg => ?_, fun c k r' hc hreg j c' hj => ?_,
    fun name protocol r' hreg => ?_⟩
  · have hk := hlog e he c k hl ho
    exact ⟨hk, hinv.messageNameByKey hk⟩
  · obtain ⟨r', hreg⟩ := registerMessage_of_codecByName slots hinv hk
    have hmoves := (registerMessage_spec hinv).of_ok hreg
    obtain ⟨c', hc', hknown⟩ := hmoves.isKnown hinv hc
    obtain ⟨c'', hc'', hname⟩ := ((hmoves.inv hinv).names c.name k).mp (hmoves.codecByName hinv)
    obtain rfl : c'' = c' := some.inj (hc''.symm.trans hc')
    exact ⟨r', hreg, c'', hc'', hname, hknown⟩
  · exact (registers_of_registerMessage hreg).codecByTypeId_eq ht
  · exact (registers_of_registerMessage hreg).lookup_of_nameOnly hc hj
  · obtain ⟨hinv', -, hres⟩ := (registerProtocol_spec hinv).of_ok hreg
    obtain ⟨-, -, hfail⟩ | ⟨-, hprot, -, hknows⟩ := hres
    · contradiction
    · refine ⟨hprot, fun c hc => ?_⟩
      obtain ⟨k, t, ht, hk⟩ := hknows c hc
      exact ⟨t, k, ht, hk, by rw [c.name_eq t ht]; exact (hinv'.types t k hk).1⟩

/-- An opaque codec, then a known one and a protocol of its name. -/
theorem registry_exact_of_runs_known :
    ∃ (s : Run fun _ : Unit => "message") (k : LocalTypeKey)
      (r' r'' : ProtocolRegistry fun _ : Unit => "message"),
      Runs numbered s ∧ s.state.codecByTypeId () = none ∧
        s.state.registerMessage numbered (.known ()) = .ok (k, r') ∧
        r'.codecByTypeId () = some k ∧
        s.state.registerProtocol numbered "protocol" (Protocol.new.addType ()) = .ok (r'', .ok ()) ∧
        r''.protocolByName "protocol" ≠ none ∧ ∃ j, r''.codecByTypeId () = some j := by
  have hreach : Runs numbered (_ : Run fun _ : Unit => "message") :=
    Transition.reaches_get [.registerMessage (.nameOnly "message")] rfl
  obtain ⟨-, -, -, hknown, htype, -, hprotocol⟩ := registry_exact_of_runs hreach
  obtain ⟨r', hreg, -⟩ := hknown (.known ()) _ rfl rfl
  obtain ⟨hprot, hcodecs⟩ := hprotocol "protocol" (Protocol.new.addType ()) _ rfl
  obtain ⟨_, j, -, hj, -⟩ := hcodecs (.known ()) (mem_singleton.mpr rfl)
  refine ⟨_, _, r', _, hreach, rfl, hreg, ?_, rfl, ?_, j, hj⟩
  · rw [htype (.known ()) () _ r' rfl hreg, update_self]
  · rw [protocolByName, hprot, update_self]
    exact some_ne_none _

end ProtocolRegistry

end Mm1
