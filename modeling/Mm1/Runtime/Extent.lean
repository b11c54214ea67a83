import Mm1.Pool.Lease
import Mm1.Runtime.Networks

/-!
# The extent of a subnet

A subnet stands for a set of addresses in two ways. A pool hands out those that agree with it on
its mask (`NetAddress.Contains`, by `Pool.new_spec`). Everything else (bindings, routes, the
checks of a configuration) compares the address range of the subnet, which begins at its address
and not at the first address of its block.

* `extents_agree_iff`: the two are the same exactly for subnets without bits outside of their mask;
* `disjoint_iff_of_apart`: what ranges that do not overlap say about the subnets themselves;
* `range_round_trip`: a range is read back as a subnet with the same range, so that a subnet bound
  under a range is unregistered under it.
-/

namespace Mm1

open PrefixBlock NetAddress

/-- The address of `n'` lies in the block of `n`, before the address of `n`. -/
def NetAddress.LiesBefore (n' n : NetAddress) : Prop :=
  n.Contains n'.address.intoU64 ∧ n'.address.intoU64.toNat < n.address.intoU64.toNat

theorem NetAddress.not_liesBefore_self {n : NetAddress} : ¬ n.LiesBefore n :=
  fun h => Nat.lt_irrefl _ h.2

theorem NetAddress.Disjoint.not_liesBefore {n n' : NetAddress} (h : n.Disjoint n') :
    ¬ n'.LiesBefore n ∧ ¬ n.LiesBefore n' :=
  ⟨fun hb => h _ ⟨hb.1, rfl⟩, fun hb => h _ ⟨rfl, hb.1⟩⟩

namespace AddressRange

variable {a : Address} {n n' : NetAddress}

/-- Nothing lies before the address of an aligned subnet. -/
theorem not_liesBefore_of_isAligned (hn : n.IsAligned) : ¬ n'.LiesBefore n :=
  fun h => absurd ((mem_ofNet hn).mpr h.1).1 (Nat.not_le.mpr h.2)

/-- The range of a subnet holds the addresses of its block from its own address on. -/
private theorem mem_ofNet_iff : (ofNet n).Mem a ↔
    n.Contains a.intoU64 ∧ n.address.intoU64.toNat ≤ a.intoU64.toNat := by
  set base := n.address.intoU64 &&& prefixMask 64 n.mask.level with hbase
  have hal : Aligned n.mask.level base := aligned_and_prefixMask _ _
  have hsame : SamePrefix n.mask.level base n.address.intoU64 := samePrefix_and_prefixMask _ _
  -- both have the same last address
  have htop : base ||| ~~~prefixMask 64 n.mask.level =
      n.address.intoU64 ||| ~~~prefixMask 64 n.mask.level := by
    refine BitVec.eq_of_getLsbD_eq fun i hi => ?_
    rw [hbase]
    simp only [BitVec.getLsbD_or, BitVec.getLsbD_and, BitVec.getLsbD_not, hi, decide_true,
      Bool.true_and]
    cases n.address.intoU64.getLsbD i <;> cases (prefixMask 64 n.mask.level).getLsbD i <;> rfl
  have hle : base.toNat ≤ n.address.intoU64.toNat := by
    rw [hbase, BitVec.toNat_and]
    exact Nat.and_le_left
  have hblock : n.Contains a.intoU64 ↔ base.toNat ≤ a.intoU64.toNat ∧
      a.intoU64.toNat ≤ (n.address.intoU64 ||| ~~~prefixMask 64 n.mask.level).toNat := by
    rw [contains_iff, ← htop, ← samePrefix_iff_le hal]
    exact ⟨fun h => h.trans hsame.symm, fun h => h.trans hsame⟩
  rw [hblock, Mem]
  simp only [ofNet, NetMask.intoU64_eq]
  omega

/-- The addresses below a subnet's own address are what its range misses of its block. -/
private theorem cmp_ofAddress_ofNet_iff :
    (cmp (ofAddress a) (ofNet n) = .eq ↔ n.Contains a.intoU64) ↔
    (n.Contains a.intoU64 → n.address.intoU64.toNat ≤ a.intoU64.toNat) := by
  rw [cmp_ofAddress, mem_ofNet_iff]
  tauto

/-- **The two extents agree for aligned subnets only.** `Pool::new(n)` hands out the addresses
that agree with `n` on its mask, and an address compares equal to the range of `n` exactly if it
is one of these, if `n` has no bits outside of its mask; otherwise some address of the pool does
not belong to the range. -/
theorem extents_agree_iff (n : NetAddress) :
    ∃ s, Pool.new n = some s ∧ (∀ a, s.Free a ↔ a &&& n.mask.intoU64 =
        n.address.intoU64 &&& n.mask.intoU64) ∧
      ((∀ a : Address, cmp (ofAddress a) (ofNet n) = .eq ↔
          a.intoU64 &&& n.mask.intoU64 = n.address.intoU64 &&& n.mask.intoU64) ↔
        n.IsAligned) := by
  obtain ⟨s, hs, -, hfree⟩ := Pool.new_spec n
  refine ⟨s, hs, hfree, ?_⟩
  constructor
  · intro h
    -- the first address of the block
    have hcontains : n.Contains (n.address.intoU64 &&& n.mask.intoU64) := by
      rw [NetAddress.Contains, BitVec.and_assoc, BitVec.and_self]
    have hle := cmp_ofAddress_ofNet_iff.mp
      (h ⟨n.address.intoU64 &&& n.mask.intoU64⟩) hcontains
    refine BitVec.eq_of_toNat_eq (Nat.le_antisymm ?_ hle)
    rw [BitVec.toNat_and]
    exact Nat.and_le_left
  · intro hn a
    rw [cmp_ofAddress, mem_ofNet hn, NetAddress.Contains]

/-- The subnet `<1>/60`: its pool has the address `0`, which does not belong to its range. -/
theorem extents_disagree :
    cmp (ofAddress ⟨0#64⟩) (ofNet ⟨⟨1#64⟩, ⟨60, by decide⟩⟩) ≠ .eq ∧
      (⟨⟨1#64⟩, ⟨60, by decide⟩⟩ : NetAddress).Contains 0#64 := by
  refine ⟨by decide, ?_⟩
  show 0#64 &&& _ = 1#64 &&& _
  decide

/-- Nothing of a block lies above its range. -/
private theorem le_hi_of_contains (h : n.Contains a.intoU64) :
    a.intoU64.toNat ≤ (ofNet n).hi.intoU64.toNat := by
  by_cases hle : n.address.intoU64.toNat ≤ a.intoU64.toNat
  · exact (mem_ofNet_iff.mpr ⟨h, hle⟩).2
  · exact (Nat.lt_of_not_le hle).le.trans (ofNet n).lo_le_hi

/-- A subnet whose block lies in that of another begins below the other one, if their ranges do
not overlap. -/
private theorem below_of_apart (h : cmp (ofNet n) (ofNet n') ≠ .eq)
    (hin : n.Contains n'.address.intoU64) :
    n'.address.intoU64.toNat < n.address.intoU64.toNat := by
  by_contra hle
  refine h (cmp_eq_iff.mpr ⟨?_, le_hi_of_contains hin⟩)
  exact (Nat.le_of_not_lt hle).trans (ofNet n').lo_le_hi

/-- **Ranges that do not overlap** say that the subnets are disjoint, unless the address of one
lies in the block of the other, before the address of that one. -/
theorem disjoint_iff_of_apart (h : cmp (ofNet n) (ofNet n') ≠ .eq) :
    n.Disjoint n' ↔ ¬ n'.LiesBefore n ∧ ¬ n.LiesBefore n' := by
  -- the address of the subnet with the smaller block lies in the larger block
  have hin : ∀ {m m' : NetAddress} {a : U64}, m.Contains a → m'.Contains a →
      m'.mask.level ≤ m.mask.level → m.Contains m'.address.intoU64 := by
    intro m m' a hm hm' hle
    rw [contains_iff] at hm hm' ⊢
    exact (hm'.mono hle).symm.trans hm
  refine ⟨NetAddress.Disjoint.not_liesBefore, ?_⟩
  rintro ⟨hbefore, hbefore'⟩ a ⟨ha, ha'⟩
  rcases Nat.le_total n'.mask.level n.mask.level with hle | hle
  · have hc := hin ha ha' hle
    exact hbefore ⟨hc, below_of_apart h hc⟩
  · have hc := hin ha' ha hle
    exact hbefore' ⟨hc, below_of_apart (fun heq => h (cmp_comm.mp heq)) hc⟩

/-- The mask that a range is read back with is a mask. -/
private theorem tryFrom_leadingOnes (r : AddressRange) :
    NetMask.tryFrom (UInt8.ofNat (leadingOnes (~~~(r.lo.intoU64 ^^^ r.hi.intoU64)))) =
      .ok (ofRange r).mask := by
  have hle := leadingOnes_le (~~~(r.lo.intoU64 ^^^ r.hi.intoU64))
  have hcast : (UInt8.ofNat (leadingOnes (~~~(r.lo.intoU64 ^^^ r.hi.intoU64)))).toNat =
      leadingOnes (~~~(r.lo.intoU64 ^^^ r.hi.intoU64)) := by
    rw [UInt8.toNat_ofNat', Nat.mod_eq_of_lt (by omega)]
  simp only [NetMask.tryFrom, hcast, hle, dite_true]
  rfl

/-- **A range is read back with the same ends**, aligned or not; so a registry removes the subnet
that was bound under it. An aligned subnet is read back itself, and the mask is always valid. -/
theorem range_round_trip {ν : Type*} (t : Networks ν) (n : NetAddress) :
    ofNet (.ofRange (.ofNet n)) = ofNet n ∧
      t.unregister (.ofRange (.ofNet n)) = t.unregister n ∧
      (n.IsAligned → ofRange (.ofNet n) = n) ∧
      ∀ r : AddressRange,
        NetMask.tryFrom (UInt8.ofNat (leadingOnes (~~~(r.lo.intoU64 ^^^ r.hi.intoU64)))) =
          .ok (ofRange r).mask := by
  have hsame := ofNet_ofRange n
  refine ⟨hsame, ?_, ofRange_ofNet, tryFrom_leadingOnes⟩
  simp only [Networks.unregister, hsame]

/-- The aligned subnet `<8>/61` is read back from its range. -/
theorem range_round_trip_aligned :
    (⟨⟨8#64⟩, ⟨61, by decide⟩⟩ : NetAddress).IsAligned ∧
      ofRange (.ofNet ⟨⟨8#64⟩, ⟨61, by decide⟩⟩) = ⟨⟨8#64⟩, ⟨61, by decide⟩⟩ := by
  have hn : (⟨⟨8#64⟩, ⟨61, by decide⟩⟩ : NetAddress).IsAligned := by
    show 8#64 &&& _ = 8#64
    decide
  exact ⟨hn, (range_round_trip (.leaf : Networks Unit) _).2.2.1 hn⟩

end AddressRange

end Mm1
