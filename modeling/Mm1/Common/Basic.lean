import Mm1.Address.Basic
import Mm1.Lib.OrderedMap
import Mm1.Lib.Roster

/-!
# What the components share

Points of time, the keys of slot maps, errors, and the headers of messages.
-/

namespace Mm1

open OrderedMap

/-! ### Time -/

/-- A point of time, as the time since the earliest one that can be represented. -/
abbrev Instant := ℕ

/-- `Instant::checked_sub`. -/
def Instant.checkedSub (now : Instant) (duration : ℕ) : Option Instant :=
  if duration ≤ now then some (now - duration) else none

/-- `Duration`, in nanoseconds. -/
abbrev Duration := ℕ

/-! ### Slot maps -/

/-- A key of a slot map: the version of a key is odd, and there is one null key. -/
structure KeyData where
  idx : UInt32
  version : UInt32
  version_odd : version.toNat % 2 = 1
  version_of_null : idx = 0xffffffff → version = 1
  deriving DecidableEq

namespace KeyData

/-- `KeyData::null`, the default of a key type. -/
def null : KeyData := ⟨0xffffffff, 1, rfl, fun _ => rfl⟩

/-- The derived `Ord`. -/
def cmp (k k' : KeyData) : Ordering :=
  lexCmp compare compare (k.idx, k.version) (k'.idx, k'.version)

theorem orderOn_cmp {S : Set KeyData} : OrderOn cmp S := by
  have hpair : OrderOn (lexCmp compare compare) (Set.univ : Set (UInt32 × UInt32)) := by
    rw [← Set.univ_prod_univ]
    exact orderOn_compare.lex orderOn_compare
  refine hpair.comap (f := fun k : KeyData => (k.idx, k.version)) fun k k' h => ?_
  obtain ⟨hidx, hversion⟩ := Prod.mk.injEq .. |>.mp h
  exact (KeyData.mk.injEq ..).mpr ⟨hidx, hversion⟩

theorem cmp_self (k : KeyData) : cmp k k = .eq :=
  (orderOn_cmp.eq_iff (Set.mem_univ k) (Set.mem_univ k)).mpr rfl

end KeyData

/-- The first key of a slot. -/
def slotKey (idx : UInt32) : KeyData := { KeyData.null with idx, version_of_null := fun _ => rfl }

/-- A slot map from which nothing is removed numbers its keys. -/
def numbered : Roster.Slots KeyData where
  next live :=
    let k := slotKey (UInt32.ofNat (live.length + 1))
    if k ∈ live then none else some k
  fresh {live k} h := by
    dsimp only at h
    split at h
    case isTrue => contradiction
    case isFalse hnot =>
      obtain rfl := Option.some.inj h
      exact hnot

/-- The key of a timer. -/
abbrev OneshotKey := KeyData

/-! ### Errors -/

/-- `ErrorOf<Kind>` -/
structure ErrorOf (Kind : Type) where
  kind : Kind
  message : String
  deriving DecidableEq

/-- `SendErrorKind`. -/
inductive SendErrorKind
  | internalError
  | notFound
  | closed
  | full
  | ttlExhausted

/-- `RecvErrorKind` -/
inductive RecvErrorKind where
  | closed
  deriving DecidableEq

/-- `ForkErrorKind` -/
inductive ForkErrorKind where
  | internalError
  | resourceConstraint
  deriving DecidableEq

/-- `AskErrorKind` -/
inductive AskErrorKind where
  | send (kind : SendErrorKind)
  | recv (kind : RecvErrorKind)
  | fork (kind : ForkErrorKind)
  | timeout
  | cast

/-! ### Headers -/

/-- `RequestHeader` -/
structure RequestHeader where
  id : BitVec 64
  replyTo : Address
  deriving DecidableEq

/-- `TraceId`. -/
abbrev TraceId := U64

/-- `EnvelopeHeader`. -/
structure EnvelopeHeader where
  /-- the field `to` -/
  dst : Address
  ttl : UInt8
  priority : Bool
  no : U64
  traceId : TraceId
  deriving DecidableEq

namespace EnvelopeHeader

/-- `DEFAULT_TTL`. -/
def defaultTtl : UInt8 := 15

/-- `to_address`, with the next number of an envelope and the trace of the task. -/
def toAddress (dst : Address) (no : U64) (traceId : TraceId) : EnvelopeHeader where
  dst := dst
  ttl := defaultTtl
  priority := false
  no := no
  traceId := traceId

def withTtl (h : EnvelopeHeader) (ttl : UInt8) : EnvelopeHeader := { h with ttl := ttl }

def withTraceId (h : EnvelopeHeader) (traceId : TraceId) : EnvelopeHeader :=
  { h with traceId := traceId }

def withPriority (h : EnvelopeHeader) (priority : Bool) : EnvelopeHeader :=
  { h with priority := priority }

def withNo (h : EnvelopeHeader) (no : U64) : EnvelopeHeader := { h with no := no }

end EnvelopeHeader

/-- `checked_sub(1)`. -/
def checkedPred (n : UInt8) : Option UInt8 := if n = 0 then none else some (n - 1)

theorem checkedPred_eq_none_iff {n : UInt8} : checkedPred n = none ↔ n = 0 := by
  by_cases h : n = 0 <;> simp [checkedPred, h]

theorem checkedPred_eq_some_iff {n m : UInt8} : checkedPred n = some m ↔ n ≠ 0 ∧ n - 1 = m := by
  by_cases h : n = 0 <;> simp [checkedPred, h]

theorem toNat_of_checkedPred {n m : UInt8} (h : checkedPred n = some m) :
    m.toNat + 1 = n.toNat := by
  obtain ⟨hne, rfl⟩ := checkedPred_eq_some_iff.mp h
  have hpos : n.toNat ≠ 0 := fun hzero => hne (UInt8.toNat_inj.mp hzero)
  have hlt := n.toNat_lt
  rw [UInt8.toNat_sub, UInt8.toNat_one]
  omega

end Mm1
