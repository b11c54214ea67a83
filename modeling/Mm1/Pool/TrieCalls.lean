import Mm1.Pool.Run

/-!
# Calls on a trie

`release`, `acquire` and `drainInto` as the rest of the crate calls them: the recursive walks
together with the assertions of a debug build, which are checked before and after each walk.

* `Ok.checkInvariants`: a well-formed trie passes the debug check;
* `Ok.release_of_meets`: releasing a block that meets the free space never changes the trie,
  and panics in one case, a single address that is a leaf of its own;
* `release_unites_iff`: so a release does what it is for on blocks that are disjoint from the
  free space, and on free blocks other than such a single address.
-/

namespace Mm1

open PrefixBlock Option

namespace Trie

variable {t t' zero one : Trie} {p addr mask a : U64} {k l : ℕ} {inserted : Bool} {m : U64}

/-! ### The calls and their assertions -/

/-- `util::assert_valid_mask`. -/
def assertValidMask (mask : U64) : Option Unit :=
  if leadingOnes mask + trailingZeros mask = 64 then some () else Option.none

/-- What `check_invariants` asserts about a child of a node with the mask `m`: it is there, and
its mask is not shorter. -/
def checkChild (m : U64) (child : Trie) : Bool :=
  match child.segMask? with
  | some c => decide (64 - trailingZeros m ≤ leadingOnes c)
  | Option.none => false

/-- `check_invariants` of a debug build. -/
def checkInvariants : Trie → Bool
  | none => true
  | leaf p m => decide (leadingOnes m + trailingZeros m = 64) && decide (p = p &&& m)
  | fork p m zero one =>
    decide (leadingOnes m + trailingZeros m = 64) && decide (p = p &&& m) &&
      decide (trailingZeros m ≠ 0) && (checkChild m zero && zero.checkInvariants) &&
      (checkChild m one && one.checkInvariants)

/-- `Pool::release`. -/
def release (t : Trie) (addr mask : U64) : Option (Trie × Bool) := do
  assertValidMask mask
  if addr &&& ~~~mask = 0#64 then
    let (t', inserted) ← t.releaseDfs addr mask
    if t'.checkInvariants then return (t', inserted) else Option.none
  else Option.none

/-- `Pool::acquire`. -/
def acquire (t : Trie) (mask : U64) : Option (Option U64 × Trie) := do
  assertValidMask mask
  let (out, t') ← t.acquireDfs mask
  if t'.checkInvariants then return (out, t') else Option.none

/-- `Pool::drain_into`: what becomes of `other`; the drained trie is left empty. -/
def drainInto : Trie → Trie → Option Trie
  | none, other => some other
  | leaf p m, other => do
    let (other', _) ← other.release p m
    return other'
  | fork _ _ zero one, other => do
    let other' ← drainInto zero other
    drainInto one other'

/-- A canonical node passes the debug check. -/
private theorem Canon.checkInvariants (h : Canon t p k) : t.checkInvariants = true := by
  induction h with
  | leaf hk hp =>
    simp only [Trie.checkInvariants, leadingOnes_prefixMask hk, trailingZeros_prefixMask hk,
      Bool.and_eq_true, decide_eq_true_eq]
    exact ⟨by omega, hp.symm⟩
  | @fork p k zero one pz po kz ko hk hp hz hkz hpz hbz ho hko hpo hbo hfull ihz iho =>
    have hk' : k + 1 ≤ 64 := hk
    have hchild : ∀ j ≤ k, 64 - (k + 1) ≤ leadingOnes (prefixMask 64 j) := by
      intro j hj
      rw [leadingOnes_prefixMask (by omega)]
      omega
    simp only [Trie.checkInvariants, checkChild, hz.segMask, ho.segMask, ihz, iho,
      leadingOnes_prefixMask hk', trailingZeros_prefixMask hk', Bool.and_eq_true,
      decide_eq_true_eq, and_true]
    exact ⟨⟨⟨⟨by omega, hp.symm⟩, by omega⟩, hchild kz hkz⟩, hchild ko hko⟩

private theorem Ok.checkInvariants (h : Ok t) : t.checkInvariants = true := by
  rcases h with rfl | ⟨p, k, hc⟩
  · rfl
  · exact hc.checkInvariants

/-- The blocks that may be released are those of a level. -/
theorem exists_level (h : Pool.BlockAligned (addr, mask)) :
    ∃ l ≤ 64, mask = prefixMask 64 l ∧ Aligned l addr := by
  obtain ⟨hmask, hal⟩ := h
  have heq := eq_prefixMask hmask
  refine ⟨_, trailingZeros_le mask, heq, ?_⟩
  have hor : addr &&& mask ||| addr &&& ~~~mask = addr := by
    rw [← BitVec.and_or_distrib_left, BitVec.or_not_self, BitVec.and_allOnes]
  rw [Aligned, ← heq]
  rw [show addr &&& ~~~mask = 0#64 from hal, BitVec.or_zero] at hor
  exact hor

theorem blockAligned_iff (hl : l ≤ 64) :
    Pool.BlockAligned (addr, prefixMask 64 l) ↔ Aligned l addr := by
  constructor
  · intro h
    obtain ⟨l', hl', hmask, haddr⟩ := exists_level h
    obtain rfl := (prefixMask_inj hl hl').mp hmask
    exact haddr
  · exact fun haddr => Pool.blockAligned_of_level (b := (addr, prefixMask 64 l)) hl rfl haddr

theorem inBlock_iff (haddr : Aligned l addr) :
    Pool.InBlock a (addr, prefixMask 64 l) ↔ SamePrefix l a addr :=
  and_prefixMask_eq_self_iff haddr

private theorem assertValidMask_prefixMask (hl : l ≤ 64) :
    assertValidMask (prefixMask 64 l) = some () := by
  rw [assertValidMask, if_pos]
  rw [leadingOnes_prefixMask hl, trailingZeros_prefixMask hl]
  omega

/-- The assertions before and after a walk hold, so a release is its walk. -/
theorem release_eq (hl : l ≤ 64) (haddr : Aligned l addr)
    (hok : ∀ t' b, releaseDfs t addr (prefixMask 64 l) = some (t', b) → Ok t') :
    release t addr (prefixMask 64 l) = releaseDfs t addr (prefixMask 64 l) := by
  have hout : addr &&& ~~~prefixMask 64 l = 0#64 := by
    rw [← show addr &&& prefixMask 64 l = addr from haddr, BitVec.and_assoc, BitVec.and_not_self]
    exact BitVec.and_zero
  simp only [release, assertValidMask_prefixMask hl, hout, if_true, bind_eq_bind,
    bind_some, pure_def]
  cases hr : releaseDfs t addr (prefixMask 64 l) with
  | none => rfl
  | some r => simp [(hok r.1 r.2 hr).checkInvariants]

private theorem acquire_eq (hl : l ≤ 64)
    (hok : ∀ out t', acquireDfs t (prefixMask 64 l) = some (out, t') → Ok t') :
    acquire t (prefixMask 64 l) = acquireDfs t (prefixMask 64 l) := by
  simp only [acquire, assertValidMask_prefixMask hl, bind_eq_bind, bind_some, pure_def]
  cases hr : acquireDfs t (prefixMask 64 l) with
  | none => rfl
  | some r => simp [(hok r.1 r.2 hr).checkInvariants]

/-- The assertions of `util::common_ancestor` hold for valid blocks: both paths agree on the
mask it returns, which is a mask. -/
theorem commonAncestor_asserts (hk : k ≤ 64) (hl : l ≤ 64) :
    (commonAncestor (p, prefixMask 64 k) (addr, prefixMask 64 l)).1 =
        addr &&& (commonAncestor (p, prefixMask 64 k) (addr, prefixMask 64 l)).2 ∧
      Pool.BlockAligned (commonAncestor (p, prefixMask 64 k) (addr, prefixMask 64 l)) := by
  obtain ⟨T, hT, hca, -, -, hsame, -⟩ := commonAncestor_spec p addr hk hl
  rw [hca]
  exact ⟨and_prefixMask_eq_iff.mpr hsame, (blockAligned_iff hT).mpr (aligned_and_prefixMask p T)⟩

/-! ### Releasing a block that meets the free space -/

/-- On the zero side of its split bit a fork holds what its first child holds. -/
theorem Side.free_fork_zero (ho : Side one p k true) (ha : a.getLsbD k = false) :
    (Trie.fork p m zero one).Free a ↔ zero.Free a :=
  or_iff_left fun hf => by
    rw [ho.bit_of_free hf] at ha
    contradiction

/-- On the one side of its split bit a fork holds what its second child holds. -/
theorem Side.free_fork_one (hz : Side zero p k false) (ha : a.getLsbD k = true) :
    (Trie.fork p m zero one).Free a ↔ one.Free a :=
  or_iff_right fun hf => by
    rw [hz.bit_of_free hf] at ha
    contradiction

/-- Nothing is inserted: the walk leaves the trie as it was, or panics because the block is a
single address whose neighbour is not free. -/
def Unmoved (t : Trie) (addr : U64) (l : ℕ) (r : Option (Trie × Bool)) : Prop :=
  (l = 0 ∧ ¬ t.Free (addr ^^^ 1#64) ∧ r = Option.none) ∨
    ((l = 0 → t.Free (addr ^^^ 1#64)) ∧ r = some (t, false))

/-- What is not inserted below a fork is not inserted into the fork. -/
private theorem Unmoved.bind {r : Option (Trie × Bool)} {f : Trie × Bool → Option (Trie × Bool)}
    (h : Unmoved t addr l r) (hiff : t'.Free (addr ^^^ 1#64) ↔ t.Free (addr ^^^ 1#64))
    (hf : f (t, false) = some (t', false)) : Unmoved t' addr l (r.bind f) := by
  rcases h with ⟨hl0, hnot, rfl⟩ | ⟨himp, rfl⟩
  · exact .inl ⟨hl0, hiff.not.mpr hnot, rfl⟩
  · exact .inr ⟨fun hl0 => hiff.mpr (himp hl0), hf⟩

/-- The ancestor of a node and of a block that meets it is the larger of the two. -/
private theorem ancestor_of_meets {T : ℕ} (h : Canon t p k)
    (hmeets : ∃ a, SamePrefix l a addr ∧ t.Free a) (hkT : k ≤ T) (hlT : l ≤ T)
    (hmin : ∀ u, k ≤ u → l ≤ u → SamePrefix u p addr → T ≤ u) :
    T = max k l ∧ SamePrefix T p addr := by
  obtain ⟨a, ha, hf⟩ := hmeets
  have hsame : SamePrefix (max k l) p addr :=
    ((h.samePrefix_of_free hf).mono (le_max_left k l)).symm.trans (ha.mono (le_max_right k l))
  have hle := hmin _ (le_max_left k l) (le_max_right k l) hsame
  obtain rfl : T = max k l := by omega
  exact ⟨rfl, hsame⟩

private theorem samePrefix_xor_one (a : U64) : SamePrefix 1 (a ^^^ 1#64) a :=
  samePrefix_iff.mpr fun i hi => by
    rw [BitVec.getLsbD_xor, show (1#64 : U64) = 1#64 <<< 0 by rfl,
      getLsbD_one_shiftLeft (by omega)]
    simp [show i ≠ 0 by omega]

/-- Compaction leaves a canonical fork as it is. -/
private theorem maybeCompact_of_canon (h : Canon (fork p m zero one) p (k + 1)) :
    maybeCompact (fork p m zero one) = some (fork p m zero one) := by
  cases h with
  | @fork _ _ _ _ pz po kz ko hk hp hz hkz hpz hbz ho hko hpo hbo hfull =>
    simp only [maybeCompact, hz.segMask, ho.segMask, bind_eq_bind, bind_some,
      pure_def, prefixMask_shiftLeft_one]
    rw [if_neg]
    rintro ⟨hmz, hmo, hlz, hlo⟩
    rw [prefixMask_inj (by omega) (by omega)] at hmz hmo
    exact hfull ⟨hlz, by omega, hlo, by omega⟩

/-- The least fork of a canonical trie splits more than two single addresses. -/
private theorem split_pos (h : Canon (fork p mask zero one) p (k + 1)) : 0 < k := by
  cases h with
  | @fork _ _ _ _ pz po kz ko hk hp hz hkz hpz hbz ho hko hpo hbo hfull =>
    refine Nat.pos_of_ne_zero ?_
    rintro rfl
    obtain rfl : kz = 0 := by omega
    obtain rfl : ko = 0 := by omega
    cases hz
    cases ho
    exact hfull ⟨rfl, rfl, rfl, rfl⟩

/-- A release that meets a free block does not move the trie. -/
private theorem releaseDfs_leaf_of_meets (hk : k ≤ 64) (hp : Aligned k p) (hl : l ≤ 64)
    (hmeets : ∃ a, SamePrefix l a addr ∧ (leaf p (prefixMask 64 k)).Free a) :
    Unmoved (leaf p (prefixMask 64 k)) addr l
      (releaseDfs (leaf p (prefixMask 64 k)) addr (prefixMask 64 l)) := by
  obtain ⟨T, hT, hca, hkT, hlT, hsame, hmin⟩ := commonAncestor_spec p addr hk hl
  obtain ⟨rfl, -⟩ := ancestor_of_meets (Canon.leaf hk hp) hmeets hkT hlT hmin
  simp only [releaseDfs, hca, trailingZeros_prefixMask hT, prefixMask_inj hT hl,
    prefixMask_inj hT hk]
  by_cases hzero : max k l = 0
  · -- both are the same single address, and the assertion fails
    obtain rfl : k = 0 := by omega
    refine .inl ⟨by omega, fun hf => ?_, if_pos hzero⟩
    rw [free_leaf_iff hp, samePrefix_zero] at hf
    rw [hzero, samePrefix_zero] at hsame
    subst hsame
    have hbit := congrArg (BitVec.getLsbD · 0) hf
    simp at hbit
  · rw [if_neg hzero]
    refine .inr ⟨fun hl0 => ?_, ?_⟩
    · rw [free_leaf_iff hp]
      rw [show max k l = k by omega] at hsame
      exact ((samePrefix_xor_one addr).mono (by omega)).trans hsame.symm
    · by_cases hle : max k l = l
      · rw [if_pos hle]
      · rw [if_neg hle, if_pos (by omega)]

/-- **Releasing a block that meets the free space** never changes the trie. -/
theorem releaseDfs_of_meets (h : Canon t p k) (hl : l ≤ 64)
    (hmeets : ∃ a, SamePrefix l a addr ∧ t.Free a) :
    Unmoved t addr l (releaseDfs t addr (prefixMask 64 l)) := by
  induction h with
  | @leaf p k hk hp => exact releaseDfs_leaf_of_meets hk hp hl hmeets
  | @fork p k zero one pz po kz ko hk hp hz hkz hpz hbz ho hko hpo hbo hfull ihz iho =>
    have hc : Canon (fork p (prefixMask 64 (k + 1)) zero one) p (k + 1) :=
      .fork hk hp hz hkz hpz hbz ho hko hpo hbo hfull
    obtain ⟨T, hT, hca, hkT, hlT, hsame, hmin⟩ := commonAncestor_spec p addr hc.level_le hl
    obtain ⟨rfl, -⟩ := ancestor_of_meets hc hmeets hkT hlT hmin
    simp only [releaseDfs, hca, trailingZeros_prefixMask hT, prefixMask_inj hT hl,
      prefixMask_inj hT hc.level_le]
    rw [if_neg (by omega)]
    by_cases hle : max (k + 1) l = l
    · rw [if_pos hle]
      exact .inr ⟨fun hl0 => by omega, rfl⟩
    rw [if_neg hle, if_pos (by omega), show max (k + 1) l = k + 1 by omega, Nat.add_sub_cancel]
    have hsz : Side zero p k false := ⟨pz, kz, hz, hkz, hpz, hbz⟩
    have hso : Side one p k true := ⟨po, ko, ho, hko, hpo, hbo⟩
    have hk0 := split_pos hc
    -- the block, and the neighbour of a single address, lie on one side of the split bit
    obtain ⟨a, ha, hf⟩ := hmeets
    have hbit : a.getLsbD k = addr.getLsbD k := samePrefix_iff.mp ha k (by omega)
    have hnext : (addr ^^^ 1#64).getLsbD k = addr.getLsbD k :=
      samePrefix_iff.mp (samePrefix_xor_one addr) k (by omega)
    by_cases hside : addr.getLsbD k = false
    · rw [if_pos ((and_one_shiftLeft_eq_zero_iff hk).mpr hside)]
      have hmoved := ihz ⟨a, ha, (hso.free_fork_zero (hbit.trans hside)).mp hf⟩
      refine hmoved.bind (hso.free_fork_zero (hnext.trans hside)) ?_
      simp only [bind_eq_bind, bind_some, pure_def, maybeCompact_of_canon hc]
    · have hside' : addr.getLsbD k = true := by simpa using hside
      rw [if_neg fun h0 => hside ((and_one_shiftLeft_eq_zero_iff hk).mp h0)]
      have hmoved := iho ⟨a, ha, (hsz.free_fork_one (hbit.trans hside')).mp hf⟩
      refine hmoved.bind (hsz.free_fork_one (hnext.trans hside')) ?_
      simp only [bind_eq_bind, bind_some, pure_def, maybeCompact_of_canon hc]

/-- A block meets the free space of a well-formed trie: nothing is inserted. -/
private theorem Ok.release_of_meets (h : Ok t) (hl : l ≤ 64) (haddr : Aligned l addr)
    (hmeets : ∃ a, SamePrefix l a addr ∧ t.Free a) :
    Unmoved t addr l (t.release addr (prefixMask 64 l)) := by
  rcases id h with rfl | ⟨p, k, hc⟩
  · obtain ⟨a, -, hf⟩ := hmeets
    exact absurd hf (free_none a)
  · have hmoved := releaseDfs_of_meets hc hl hmeets
    rw [release_eq hl haddr]
    · exact hmoved
    · intro t' b hr
      rcases hmoved with ⟨-, -, hr'⟩ | ⟨-, hr'⟩
      · rw [hr'] at hr
        contradiction
      · rw [hr'] at hr
        obtain ⟨rfl, -⟩ := Prod.mk.inj (some.inj hr)
        exact h

/-- A block disjoint from the free space of a well-formed trie is inserted. -/
theorem Ok.release_of_disjoint (h : Ok t) (hl : l ≤ 64) (haddr : Aligned l addr)
    (hdisj : ∀ a, SamePrefix l a addr → ¬ t.Free a) :
    ∃ t', t.release addr (prefixMask 64 l) = some (t', true) ∧ Ok t' ∧
      ∀ a, t'.Free a ↔ t.Free a ∨ SamePrefix l a addr := by
  obtain ⟨t', hr, hok, hfree⟩ := h.release hl haddr hdisj
  refine ⟨t', ?_, hok, hfree⟩
  rw [release_eq hl haddr, hr]
  intro t'' b hr'
  rw [hr] at hr'
  obtain ⟨rfl, -⟩ := Prod.mk.inj (some.inj hr')
  exact hok

/-- The answer of `acquire` on a well-formed trie is the one of its walk. -/
theorem Ok.acquire_eq (h : Ok t) (hl : l ≤ 64) :
    t.acquire (prefixMask 64 l) = t.acquireDfs (prefixMask 64 l) := by
  refine Trie.acquire_eq hl fun out t' hr => ?_
  rcases h.acquire hl with ⟨addr, t₁, hr', -, -, hok, -⟩ | ⟨hr', -⟩
  · rw [hr'] at hr
    obtain ⟨-, rfl⟩ := Prod.mk.inj (some.inj hr)
    exact hok
  · rw [hr'] at hr
    obtain ⟨-, rfl⟩ := Prod.mk.inj (some.inj hr)
    exact h

/-! ### Sequences of calls -/

/-- A call on a trie. -/
inductive Call where
  | release (addr mask : U64)
  | acquire (mask : U64)

/-- What a call leaves of the trie. -/
def call (t : Trie) : Call → Option Trie
  | .release addr mask => (t.release addr mask).map Prod.fst
  | .acquire mask => (t.acquire mask).map Prod.snd

/-- A sequence of calls on `Pool::empty()`. -/
def calls (cs : List Call) : Option Trie := cs.foldlM call none

/-- A call that returns was made with a valid block or mask. -/
private theorem exists_level_of_release {r : Trie × Bool} (h : t.release addr mask = some r) :
    ∃ l ≤ 64, mask = prefixMask 64 l ∧ Aligned l addr := by
  obtain ⟨_, hmask, h⟩ := bind_eq_some_iff.mp h
  obtain ⟨hout, -⟩ := ite_none_right_eq_some.mp h
  exact exists_level ⟨(ite_none_right_eq_some.mp hmask).1, hout⟩

private theorem exists_level_of_acquire {r : Option U64 × Trie} (h : t.acquire mask = some r) :
    ∃ l ≤ 64, mask = prefixMask 64 l := by
  obtain ⟨_, hmask, -⟩ := bind_eq_some_iff.mp h
  exact ⟨_, trailingZeros_le mask, eq_prefixMask (ite_none_right_eq_some.mp hmask).1⟩

/-- A call keeps the trie well formed. -/
theorem Ok.call {c : Call} (h : Ok t) (hc : t.call c = some t') : Ok t' := by
  cases c with
  | release addr mask =>
    obtain ⟨r, hr, rfl⟩ := map_eq_some_iff.mp hc
    obtain ⟨l, hl, rfl, haddr⟩ := exists_level_of_release hr
    by_cases hmeets : ∃ a, SamePrefix l a addr ∧ t.Free a
    · rcases h.release_of_meets hl haddr hmeets with ⟨-, -, hr'⟩ | ⟨-, hr'⟩
      · rw [hr'] at hr
        contradiction
      · obtain rfl := some.inj (hr'.symm.trans hr)
        exact h
    · obtain ⟨t₁, hr', hok, -⟩ := h.release_of_disjoint hl haddr fun a ha hf =>
        hmeets ⟨a, ha, hf⟩
      obtain rfl := some.inj (hr'.symm.trans hr)
      exact hok
  | acquire mask =>
    obtain ⟨r, hr, rfl⟩ := map_eq_some_iff.mp hc
    obtain ⟨l, hl, rfl⟩ := exists_level_of_acquire hr
    rw [h.acquire_eq hl] at hr
    rcases h.acquire hl with ⟨addr, t₁, hr', -, -, hok, -⟩ | ⟨hr', -⟩
    · obtain rfl := some.inj (hr'.symm.trans hr)
      exact hok
    · obtain rfl := some.inj (hr'.symm.trans hr)
      exact h

/-- Every trie that calls lead to is well formed, whatever was released. -/
private theorem ok_of_calls {cs : List Call} (h : calls cs = some t) : Ok t := by
  induction cs using List.reverseRecOn generalizing t with
  | nil =>
    obtain rfl := some.inj h
    exact ok_none
  | append_singleton cs c ih =>
    rw [calls, List.foldlM_append] at h
    obtain ⟨t₁, h₁, hlast⟩ := bind_eq_some_iff.mp h
    rw [List.foldlM_cons] at hlast
    obtain ⟨t₂, hc, heq⟩ := bind_eq_some_iff.mp hlast
    obtain rfl := some.inj heq
    exact (ih h₁).call hc

/-- **When a release does what it is for.** A call `release(addr, mask)` unites the free space
with the block and says whether it grew, exactly if the block is disjoint from the free space,
or is free already and is not a single address whose neighbour is in use. -/
theorem release_unites_iff {cs : List Call} (ht : calls cs = some t)
    (hblock : Pool.BlockAligned (addr, mask)) :
    (∃ t' inserted, t.release addr mask = some (t', inserted) ∧
        (∀ a, t'.Free a ↔ t.Free a ∨ Pool.InBlock a (addr, mask)) ∧
        (inserted = true ↔ ∃ a, Pool.InBlock a (addr, mask) ∧ ¬ t.Free a)) ↔
      (∀ a, Pool.InBlock a (addr, mask) → ¬ t.Free a) ∨
        (∀ a, Pool.InBlock a (addr, mask) → t.Free a) ∧
          (mask = BitVec.allOnes 64 → t.Free (addr ^^^ 1#64)) := by
  obtain ⟨l, hl, rfl, haddr⟩ := exists_level hblock
  have hok := ok_of_calls ht
  have hsingle : prefixMask 64 l = BitVec.allOnes 64 ↔ l = 0 := by
    rw [show BitVec.allOnes 64 = prefixMask 64 0 by rfl, prefixMask_inj hl (Nat.zero_le 64)]
  simp only [inBlock_iff haddr, hsingle]
  by_cases hmeets : ∃ a, SamePrefix l a addr ∧ t.Free a
  · obtain ⟨a, ha, hf⟩ := id hmeets
    have hnot : ¬ ∀ a, SamePrefix l a addr → ¬ t.Free a := fun hdisj => hdisj a ha hf
    rw [or_iff_right hnot]
    rcases hok.release_of_meets hl haddr hmeets with ⟨hl0, hnext, hr⟩ | ⟨hnext, hr⟩
    · -- the assertion on the common ancestor fails
      rw [hr]
      constructor
      · rintro ⟨t', inserted, hr', -⟩
        contradiction
      · rintro ⟨-, himp⟩
        exact absurd (himp hl0) hnext
    · rw [hr]
      constructor
      · rintro ⟨t', inserted, hr', hfree, -⟩
        obtain ⟨rfl, -⟩ := Prod.mk.inj (some.inj hr')
        exact ⟨fun a ha => (hfree a).mpr (.inr ha), hnext⟩
      · rintro ⟨hall, -⟩
        refine ⟨t, false, rfl, fun a => ⟨.inl, ?_⟩, ?_⟩
        · rintro (hf | ha)
          · exact hf
          · exact hall a ha
        · simp only [Bool.false_eq_true, false_iff]
          rintro ⟨a, ha, hn⟩
          exact hn (hall a ha)
  · have hdisj : ∀ a, SamePrefix l a addr → ¬ t.Free a := fun a ha hf => hmeets ⟨a, ha, hf⟩
    obtain ⟨t', hr, -, hfree⟩ := hok.release_of_disjoint hl haddr hdisj
    refine iff_of_true ⟨t', true, hr, hfree, ?_⟩ (.inl hdisj)
    exact iff_of_true rfl ⟨addr, SamePrefix.refl _ _, hdisj addr (SamePrefix.refl _ _)⟩

/-- A free block below a larger free one: nothing changes, and nothing has to. -/
theorem release_inside_free_block :
    ∃ t', (leaf 0x10#64 (BitVec.allOnes 64 <<< 4)).release 0x14#64 (BitVec.allOnes 64 <<< 2)
        = some (t', false) ∧
      ∀ a, t'.Free a ↔ (leaf 0x10#64 (BitVec.allOnes 64 <<< 4)).Free a ∨
        Pool.InBlock a (0x14#64, BitVec.allOnes 64 <<< 2) := by
  have hfree : ∀ a : U64, a &&& BitVec.allOnes 64 <<< 2 = 0x14#64 →
      a &&& BitVec.allOnes 64 <<< 4 = 0x10#64 := by
    intro a ha
    have hsub : (BitVec.allOnes 64 <<< 4 : U64) =
        BitVec.allOnes 64 <<< 2 &&& BitVec.allOnes 64 <<< 4 := by decide
    rw [hsub, ← BitVec.and_assoc, ha]
    decide
  have ht : calls [.release 0x10#64 (BitVec.allOnes 64 <<< 4)] =
      some (leaf 0x10#64 (BitVec.allOnes 64 <<< 4)) := by decide
  have hblock : Pool.BlockAligned (0x14#64, BitVec.allOnes 64 <<< 2) := ⟨by decide, by decide⟩
  obtain ⟨t', inserted, hr, hunited, hins⟩ := (release_unites_iff ht hblock).mpr
    (.inr ⟨hfree, fun h => absurd h (by decide)⟩)
  refine ⟨t', ?_, hunited⟩
  have hfalse : inserted = false := by
    refine Bool.eq_false_iff.mpr fun h => ?_
    obtain ⟨a, ha, hn⟩ := hins.mp h
    exact hn (hfree a ha)
  rw [hr, hfalse]

/-- The address `5` is released, and nothing else. Releasing it again panics; and the block of
`4` and `5` is not inserted although `4` is not free. -/
theorem release_over_single_address :
    calls [.release 5#64 (BitVec.allOnes 64)] = some (leaf 5#64 (BitVec.allOnes 64)) ∧
      (leaf 5#64 (BitVec.allOnes 64)).release 5#64 (BitVec.allOnes 64) = Option.none ∧
      (leaf 5#64 (BitVec.allOnes 64)).release 4#64 (BitVec.allOnes 64 <<< 1)
        = some (leaf 5#64 (BitVec.allOnes 64), false) ∧
      ¬ (leaf 5#64 (BitVec.allOnes 64)).Free 4#64 := by
  refine ⟨by decide, by decide, by decide, ?_⟩
  show ¬ (4#64 &&& BitVec.allOnes 64 = 5#64)
  decide

end Trie

end Mm1
