import Mm1.Lib.PrefixBlock

/-!
# Addresses, masks and networks

The value types of `mm1-address`: `Address` wraps a `u64`, `NetMask` a prefix length between
`0` and `64`, and a `NetAddress` is an address with a mask. The address of a `NetAddress` may
have bits outside its mask: parsing and deserialization admit such values, and `Pool::new`
normalizes them.
-/

namespace Mm1

open PrefixBlock

/-- The machine word of an address. -/
abbrev U64 := BitVec 64

/-- An address of the actor network. -/
@[ext]
structure Address where
  /-- The wrapped word (`into_u64`). -/
  intoU64 : U64
  deriving DecidableEq, Repr

/-- A prefix length. `TryFrom<u8>` is the only way to build one, so it never exceeds `64`. -/
structure NetMask where
  /-- The number of fixed bits (`bits_fixed`). -/
  bitsFixed : ℕ
  /-- The bound that `TryFrom` checks. -/
  le_addressBits : bitsFixed ≤ 64
  deriving DecidableEq

/-- The error of `TryFrom<u8>` for `NetMask`: the value that is too large. -/
structure InvalidMask where
  value : UInt8
  deriving DecidableEq

namespace NetMask

/-- `NetMask::MAX`: the mask of a single address. -/
def max : NetMask := ⟨64, le_rfl⟩

/-- `TryFrom<u8>`. -/
def tryFrom (value : UInt8) : Except InvalidMask NetMask :=
  if h : value.toNat ≤ 64 then .ok ⟨value.toNat, h⟩ else .error ⟨value⟩

/-- The mask as a word. Rust's `<<` by `64` would overflow, which is why the prefix length `0`
is a case of its own. -/
def intoU64 (m : NetMask) : U64 :=
  match m.bitsFixed with
  | 0 => 0#64
  | bits => BitVec.allOnes 64 <<< (64 - bits)

/-- The number of free low bits of a mask. -/
def level (m : NetMask) : ℕ := 64 - m.bitsFixed

/-- The mask with that many free low bits. -/
def ofLevel (level : ℕ) : NetMask := ⟨64 - level, Nat.sub_le 64 level⟩

theorem level_le (m : NetMask) : m.level ≤ 64 := Nat.sub_le 64 _

theorem intoU64_eq (m : NetMask) : m.intoU64 = prefixMask 64 m.level := by
  obtain ⟨bits, hbits⟩ := m
  cases bits with
  | zero => rw [intoU64, level]; exact prefixMask_width.symm
  | succ n => rfl

end NetMask

/-- An address with a mask. -/
structure NetAddress where
  /-- The address; it may have bits outside of the mask. -/
  address : Address
  /-- The mask. -/
  mask : NetMask
  deriving DecidableEq

namespace NetAddress

/-- The addresses of a network: those that agree with its address on the masked bits. -/
def Contains (n : NetAddress) (a : U64) : Prop :=
  a &&& n.mask.intoU64 = n.address.intoU64 &&& n.mask.intoU64

instance (n : NetAddress) (a : U64) : Decidable (n.Contains a) :=
  inferInstanceAs (Decidable (_ = _))

theorem contains_iff {n : NetAddress} {a : U64} :
    n.Contains a ↔ SamePrefix n.mask.level a n.address.intoU64 := by
  rw [Contains, NetMask.intoU64_eq, and_prefixMask_eq_iff]

/-- A network is aligned when its address has no bit outside of the mask. -/
def IsAligned (n : NetAddress) : Prop := n.address.intoU64 &&& n.mask.intoU64 = n.address.intoU64

instance (n : NetAddress) : Decidable n.IsAligned := inferInstanceAs (Decidable (_ = _))

theorem isAligned_iff {n : NetAddress} : n.IsAligned ↔ Aligned n.mask.level n.address.intoU64 := by
  rw [IsAligned, NetMask.intoU64_eq]
  exact Iff.rfl

/-- Two networks are disjoint when they share no address. -/
def Disjoint (n n' : NetAddress) : Prop := ∀ a, ¬ (n.Contains a ∧ n'.Contains a)

theorem Disjoint.symm {n n' : NetAddress} (h : n.Disjoint n') : n'.Disjoint n :=
  fun a ha => h a ⟨ha.2, ha.1⟩

end NetAddress

end Mm1
