import Mathlib.Order.WellFounded
import Mm1.Address.Basic
import Mm1.Lib.OrderedMap

/-!
# Address ranges

`AddressRange` is the key under which a subnet is registered. Its comparison calls overlapping
ranges equal, so that the range of a single address finds the subnet it lies in.

* `AddressRange.cmp_eq_iff`: what the comparison calls equal are the ranges that overlap;
* `AddressRange.mem_ofNet`: the range of an aligned subnet holds exactly its addresses;
* `AddressRange.cmp_ofNet_ne_eq`: disjoint subnets are told apart;
* `AddressRange.orderOn_cmp`: the comparison orders ranges that do not overlap, and places every
  single address among them;
* `NetAddress.ofRange_ofNet`: an aligned subnet is read back from its range;
* `NetAddress.ofNet_ofRange`: whatever the subnet, its range is.
-/

namespace Mm1

open PrefixBlock OrderedMap

/-- A range of addresses. -/
structure AddressRange where
  lo : Address
  hi : Address
  /-- the `debug_assert` of `new` -/
  lo_le_hi : lo.intoU64.toNat ≤ hi.intoU64.toNat
  deriving DecidableEq

namespace AddressRange

variable {r r' : AddressRange} {a : Address} {n n' : NetAddress} {V : Type}
  {m : List (AddressRange × V)} {S : Set AddressRange}

/-- `From<Address>`. -/
def ofAddress (a : Address) : AddressRange := ⟨a, a, le_rfl⟩

/-- `From<NetAddress>`. -/
def ofNet (n : NetAddress) : AddressRange where
  lo := n.address
  hi := ⟨n.address.intoU64 ||| ~~~n.mask.intoU64⟩
  lo_le_hi := by
    rw [BitVec.toNat_or]
    exact Nat.left_le_or

/-- `Ord::cmp`. -/
def cmp (r r' : AddressRange) : Ordering :=
  match compare r.hi.intoU64.toNat r'.lo.intoU64.toNat,
    compare r.lo.intoU64.toNat r'.hi.intoU64.toNat with
  | .lt, .lt => .lt
  | .gt, .gt => .gt
  | _, _ => .eq

/-- The address lies in the range. -/
def Mem (r : AddressRange) (a : Address) : Prop :=
  r.lo.intoU64.toNat ≤ a.intoU64.toNat ∧ a.intoU64.toNat ≤ r.hi.intoU64.toNat

instance (r : AddressRange) (a : Address) : Decidable (r.Mem a) :=
  inferInstanceAs (Decidable (_ ∧ _))

/-- Two ranges are called equal when they overlap. -/
theorem cmp_eq_iff : cmp r r' = .eq ↔ r.lo.intoU64.toNat ≤ r'.hi.intoU64.toNat ∧
    r'.lo.intoU64.toNat ≤ r.hi.intoU64.toNat := by
  have hle := r.lo_le_hi
  have hle' := r'.lo_le_hi
  rw [cmp]
  split
  case h_1 hlt _ =>
    rw [compare_lt_iff_lt] at hlt
    exact iff_of_false (fun h => nomatch h) fun h => absurd h.2 hlt.not_ge
  case h_2 _ hgt =>
    rw [compare_gt_iff_gt] at hgt
    exact iff_of_false (fun h => nomatch h) fun h => absurd h.1 hgt.not_ge
  case h_3 hlt hgt =>
    -- if the ranges did not overlap, both comparisons would go the same way
    simp only [compare_lt_iff_lt, compare_gt_iff_gt] at hlt hgt
    refine iff_of_true rfl ⟨?_, ?_⟩
    · by_contra hlo
      exact hgt (by omega) (by omega)
    · by_contra hhi
      exact hlt (by omega) (by omega)

theorem cmp_comm : cmp r r' = .eq ↔ cmp r' r = .eq := by
  rw [cmp_eq_iff, cmp_eq_iff, and_comm]

theorem cmp_self (r : AddressRange) : cmp r r = .eq := cmp_eq_iff.mpr ⟨r.lo_le_hi, r.lo_le_hi⟩

/-- The range of an address is equal to each range it lies in. -/
theorem cmp_ofAddress : cmp (ofAddress a) r = .eq ↔ r.Mem a := by
  rw [cmp_eq_iff, Mem, and_comm]
  rfl

/-- Ranges with a common address overlap. -/
theorem Mem.overlap (h : r.Mem a) (h' : r'.Mem a) : cmp r r' = .eq :=
  cmp_eq_iff.mpr ⟨h.1.trans h'.2, h'.1.trans h.2⟩

/-- **The range of a subnet** holds its addresses. -/
theorem mem_ofNet (hn : n.IsAligned) : (ofNet n).Mem a ↔ n.Contains a.intoU64 := by
  rw [NetAddress.contains_iff, samePrefix_iff_le (NetAddress.isAligned_iff.mp hn),
    ← NetMask.intoU64_eq]
  rfl

/-- **Disjoint subnets are told apart.** -/
theorem cmp_ofNet_ne_eq (hn : n.IsAligned) (hn' : n'.IsAligned) (h : n.Disjoint n') :
    cmp (ofNet n) (ofNet n') ≠ .eq := by
  intro heq
  obtain ⟨hlo, hhi⟩ := cmp_eq_iff.mp heq
  -- the larger one of the two low ends lies in both
  rcases Nat.le_total n.address.intoU64.toNat n'.address.intoU64.toNat with hle | hle
  · refine h n'.address.intoU64 ⟨(mem_ofNet hn).mp ⟨hle, hhi⟩, rfl⟩
  · refine h n.address.intoU64 ⟨rfl, (mem_ofNet hn').mp ⟨hle, hlo⟩⟩

private theorem cmp_eq_lt : cmp r r' = .lt ↔ r.hi.intoU64.toNat < r'.lo.intoU64.toNat := by
  have hle := r.lo_le_hi
  have hle' := r'.lo_le_hi
  rw [cmp]
  split
  case h_1 hlt _ => exact iff_of_true rfl (compare_lt_iff_lt.mp hlt)
  case h_2 hgt _ =>
    rw [compare_gt_iff_gt] at hgt
    exact iff_of_false Ordering.noConfusion (by omega)
  case h_3 hlt _ =>
    refine iff_of_false Ordering.noConfusion fun h => hlt ?_ ?_
    · exact compare_lt_iff_lt.mpr h
    · exact compare_lt_iff_lt.mpr (by omega)

private theorem cmp_eq_gt : cmp r r' = .gt ↔ r'.hi.intoU64.toNat < r.lo.intoU64.toNat := by
  have hle := r.lo_le_hi
  have hle' := r'.lo_le_hi
  rw [cmp]
  split
  case h_1 hlt _ =>
    rw [compare_lt_iff_lt] at hlt
    exact iff_of_false Ordering.noConfusion (by omega)
  case h_2 _ hgt => exact iff_of_true rfl (compare_gt_iff_gt.mp hgt)
  case h_3 _ hgt =>
    refine iff_of_false Ordering.noConfusion fun h => hgt ?_ ?_
    · exact compare_gt_iff_gt.mpr (by omega)
    · exact compare_gt_iff_gt.mpr h

theorem cmp_swap (r r' : AddressRange) : cmp r' r = (cmp r r').swap := by
  cases h : cmp r r' with
  | lt => exact cmp_eq_gt.mpr (cmp_eq_lt.mp h)
  | eq => exact cmp_comm.mp h
  | gt => exact cmp_eq_lt.mpr (cmp_eq_gt.mp h)

/-- Ranges are told apart as by an order. -/
theorem strictCmp_cmp : StrictCmp cmp where
  swap := cmp_swap
  trans {_ b _} hab hbc := by
    rw [cmp_eq_lt] at hab hbc ⊢
    have := b.lo_le_hi
    omega

/-- **Ranges that do not overlap are ordered.** -/
theorem orderOn_cmp (hS : ∀ r ∈ S, ∀ r' ∈ S, cmp r r' = .eq → r = r') : OrderOn cmp S where
  swap _ _ := cmp_swap _ _
  eq_iff ha hb := ⟨hS _ ha _ hb, fun h => h ▸ cmp_self _⟩
  trans _ _ _ := strictCmp_cmp.trans

/-- **A single address has its place** among ranges, whatever they are. -/
theorem probe_ofAddress : Probe cmp S (ofAddress a) := by
  intro r r' _ _ hlt hgt
  rw [cmp_eq_lt] at hlt ⊢
  rw [Ne, cmp_eq_gt] at hgt
  have hhi : (ofAddress a).hi = (ofAddress a).lo := rfl
  rw [hhi]
  omega

/-- The lowest address of a range lies on the same side of the others. -/
theorem cmp_ofAddress_lo (h : cmp r r' ≠ .eq) : cmp (ofAddress r.lo) r' = cmp r r' := by
  cases hc : cmp r r' with
  | lt => exact cmp_eq_lt.mpr (r.lo_le_hi.trans_lt (cmp_eq_lt.mp hc))
  | eq => exact absurd hc h
  | gt =>
    rw [cmp_eq_gt] at hc ⊢
    exact hc

/-- The keys of a map in order do not overlap. -/
theorem eq_of_sorted (hm : Sorted cmp m) : ∀ e ∈ m, ∀ e' ∈ m, cmp e.1 e'.1 = .eq → e.1 = e'.1 := by
  have : Std.Symm fun e e' : AddressRange × V => cmp e.1 e'.1 = .eq → e.1 = e'.1 :=
    ⟨fun _ _ h heq => (h (cmp_comm.mp heq)).symm⟩
  have hne : m.Pairwise fun e e' => cmp e.1 e'.1 = .eq → e.1 = e'.1 := hm.imp fun hlt heq => by
    rw [hlt] at heq
    contradiction
  exact fun e he e' he' => hne.forall_of_forall (fun _ _ _ => rfl) he he'

/-- **A range finds an entry that it overlaps**, whatever else it overlaps. -/
theorem isSome_entry_iff (hm : Sorted cmp m) :
    (entry cmp r m).isSome ↔ ∃ e ∈ m, cmp r e.1 = .eq := by
  constructor
  · intro h
    obtain ⟨e, he⟩ := Option.isSome_iff_exists.mp h
    exact ⟨e, mem_of_entry he⟩
  · rintro ⟨e, he, heq⟩
    have hord : OrderOn cmp {q | ∃ v, (q, v) ∈ m} := by
      refine orderOn_cmp ?_
      rintro q ⟨v, hv⟩ q' ⟨v', hv'⟩
      exact eq_of_sorted hm _ hv _ hv'
    have hcaught := Caught.of_mem hord strictCmp_cmp ⟨e.2, he⟩ heq
    exact Option.isSome_iff_exists.mpr (hcaught.exists_entry hord hm (fun _ => Iff.rfl) .scan)

/-- A range that overlaps no key can be inserted. -/
theorem sorted_insert_of_apart {v : V} (hm : Sorted cmp m) (hfree : ∀ e ∈ m, cmp r e.1 ≠ .eq) :
    Sorted cmp (insert cmp r v m) := by
  have hord : OrderOn cmp {q | q = r ∨ ∃ e ∈ m, e.1 = q} := by
    refine orderOn_cmp ?_
    rintro q (rfl | ⟨e, he, rfl⟩) q' (rfl | ⟨e', he', rfl⟩) heq
    · rfl
    · exact absurd heq (hfree e' he')
    · exact absurd (cmp_comm.mp heq) (hfree e he)
    · exact eq_of_sorted hm e he e' he' heq
  refine sorted_insert hm (fun e he => .inr ⟨e, he, rfl⟩) hord (.inl rfl) fun e he heq => ?_
  exact hfree e he (heq ▸ cmp_self e.1)

theorem nodup_of_sorted (hm : Sorted cmp m) : (m.map Prod.fst).Nodup := by
  refine List.pairwise_map.mpr (hm.imp fun {e e'} hlt heq => ?_)
  rw [heq, cmp_self] at hlt
  contradiction

/-- Several ranges are removed. -/
theorem foldl_remove {rs : List AddressRange} (hm : Sorted cmp m) (hrs : ∀ r ∈ rs, ∃ v, (r, v) ∈ m)
    (hnodup : rs.Nodup) :
    Sorted cmp (rs.foldl (fun m r => remove cmp r m) m) ∧
      ∀ e, e ∈ rs.foldl (fun m r => remove cmp r m) m ↔ e ∈ m ∧ e.1 ∉ rs := by
  induction rs generalizing m with
  | nil => simp [hm]
  | cons r rs ih =>
    obtain ⟨⟨v, hv⟩, hrest⟩ := List.forall_mem_cons.mp hrs
    obtain ⟨hr, hnodup⟩ := List.nodup_cons.mp hnodup
    have hord : OrderOn cmp {q | ∃ e ∈ m, e.1 = q} := by
      refine orderOn_cmp ?_
      rintro _ ⟨e, he, rfl⟩ _ ⟨e', he', rfl⟩
      exact eq_of_sorted hm e he e' he'
    have hS : KeysIn {q | ∃ e ∈ m, e.1 = q} m := fun e he => ⟨e, he, rfl⟩
    have hmem : ∀ e, e ∈ remove cmp r m ↔ e ∈ m ∧ e.1 ≠ r := fun e => mem_remove hm hS hord hv
    obtain ⟨hsorted, hiff⟩ := ih (sorted_remove hm) (fun q hq => by
      obtain ⟨w, hw⟩ := hrest q hq
      exact ⟨w, (hmem _).mpr ⟨hw, fun heq => hr (heq ▸ hq)⟩⟩) hnodup
    refine ⟨hsorted, fun e => ?_⟩
    rw [List.foldl_cons, hiff, hmem, List.mem_cons, not_or, and_assoc]

end AddressRange

/-! ### The subnet of a range -/

private theorem leadingOnes_intoU64 (m : NetMask) : leadingOnes m.intoU64 = m.bitsFixed := by
  rw [m.intoU64_eq, leadingOnes_prefixMask m.level_le]
  exact Nat.sub_sub_self m.le_addressBits

namespace NetAddress

/-- `From<AddressRange>`: the mask has the leading bits in which the two ends agree. -/
def ofRange (r : AddressRange) : NetAddress where
  address := r.lo
  mask := ⟨leadingOnes (~~~(r.lo.intoU64 ^^^ r.hi.intoU64)), leadingOnes_le _⟩

/-- **An aligned subnet is read back from its range.** -/
theorem ofRange_ofNet {n : NetAddress} (hn : n.IsAligned) : ofRange (AddressRange.ofNet n) = n := by
  obtain ⟨⟨a⟩, m⟩ := n
  -- the ends differ in all the free bits
  have hends : ~~~(a ^^^ (a ||| ~~~m.intoU64)) = m.intoU64 := by
    have ha : a &&& m.intoU64 = a := hn
    rw [← ha]
    ext i hi
    simp only [BitVec.getElem_not, BitVec.getElem_xor, BitVec.getElem_or, BitVec.getElem_and]
    cases a[i] <;> cases m.intoU64[i] <;> rfl
  have hbits : leadingOnes (~~~(a ^^^ (a ||| ~~~m.intoU64))) = m.bitsFixed := by
    rw [hends, leadingOnes_intoU64]
  rw [ofRange, NetAddress.mk.injEq]
  exact ⟨rfl, (NetMask.mk.injEq ..).mpr hbits⟩

/-- **The range of a subnet is read back** from the subnet that is read back from it. -/
theorem ofNet_ofRange (n : NetAddress) :
    AddressRange.ofNet (ofRange (AddressRange.ofNet n)) = AddressRange.ofNet n := by
  obtain ⟨⟨a⟩, m⟩ := n
  have hends : ~~~(a ^^^ (a ||| ~~~m.intoU64)) = a ||| m.intoU64 := by
    ext i hi
    simp only [BitVec.getElem_not, BitVec.getElem_xor, BitVec.getElem_or]
    cases a[i] <;> cases m.intoU64[i] <;> rfl
  have hhi : a ||| ~~~(ofRange (AddressRange.ofNet ⟨⟨a⟩, m⟩)).mask.intoU64 =
      a ||| ~~~m.intoU64 := by
    have hmask := or_not_prefixMask_leadingOnes a m.level
    rw [← m.intoU64_eq, ← hends] at hmask
    rw [NetMask.intoU64_eq]
    exact hmask
  simp only [AddressRange.ofNet, AddressRange.mk.injEq]
  exact ⟨rfl, congrArg Address.mk hhi⟩

end NetAddress

end Mm1
