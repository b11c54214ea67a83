import Mm1.Pool.TrieCanon

/-!
# What the trie operations do

One specification per operation of the trie, each on canonical nodes:

* `releaseDfs_spec`: releasing a block that is disjoint from the free space inserts it;
* `acquireDfs_spec`: acquiring takes an aligned, entirely free block out, or there is none;
* `drainDfs_spec`: draining unites two disjoint free spaces.

All three keep the node canonical, and none of them panics.
-/

namespace Mm1

open PrefixBlock List

namespace Trie

variable {t zero one : Trie} {p q addr a : U64} {k l : ℕ} {b : Bool} {n : ℕ} {s : Trie}

/-! ### Children of a fork -/

/-- A canonical child on side `b` of the split bit `k` of the path `p`. -/
def Side (t : Trie) (p : U64) (k : ℕ) (b : Bool) : Prop :=
  ∃ q l, Canon t q l ∧ l ≤ k ∧ SamePrefix (k + 1) q p ∧ q.getLsbD k = b

theorem Side.bit_of_free (h : Side t p k b) (ha : t.Free a) : a.getLsbD k = b := by
  obtain ⟨q, l, hc, hl, -, hb⟩ := h
  rw [samePrefix_iff.mp (hc.samePrefix_of_free ha) k hl, hb]

theorem Side.samePrefix_of_free (h : Side t p k b) (ha : t.Free a) : SamePrefix (k + 1) a p := by
  obtain ⟨q, l, hc, hl, hq, -⟩ := h
  exact ((hc.samePrefix_of_free ha).mono (by omega)).trans hq

/-- A leaf of level `k` on one side holds exactly that half. -/
private theorem Side.free_iff_of_leaf (h : Side t p k b) (hleaf : t.isLeaf)
    (hmask : t.segMask? = some (prefixMask 64 k)) (hk : k < 64) :
    t.Free a ↔ SamePrefix (k + 1) a p ∧ a.getLsbD k = b := by
  refine ⟨fun ha => ⟨h.samePrefix_of_free ha, h.bit_of_free ha⟩, ?_⟩
  rintro ⟨ha, hbit⟩
  obtain ⟨q, l, hc, hl, hq, hb⟩ := h
  rw [hc.segMask, Option.some.injEq, prefixMask_inj hc.level_le hk.le] at hmask
  subst hmask
  cases hc with
  | leaf hk hp =>
    exact (free_leaf_iff hp).mpr (samePrefix_of_bit (ha.trans hq.symm) (hbit.trans hb.symm))
  | fork => simp [isLeaf] at hleaf

/-- Two children that do not fill their block make a canonical fork. -/
private theorem Side.canon_fork (hz : Side zero p k false) (ho : Side one p k true) (hk : k < 64)
    (hp : Aligned (k + 1) p)
    (hfull : ¬ (zero.isLeaf ∧ zero.segMask? = some (prefixMask 64 k) ∧
      one.isLeaf ∧ one.segMask? = some (prefixMask 64 k))) :
    Canon (fork p (prefixMask 64 (k + 1)) zero one) p (k + 1) := by
  obtain ⟨pz, kz, hcz, hkz, hpz, hbz⟩ := hz
  obtain ⟨po, ko, hco, hko, hpo, hbo⟩ := ho
  refine .fork hk hp hcz hkz hpz hbz hco hko hpo hbo ?_
  rintro ⟨hlz, rfl, hlo, rfl⟩
  exact hfull ⟨hlz, hcz.segMask, hlo, hco.segMask⟩

/-- Compaction keeps the addresses and yields a canonical node. -/
private theorem maybeCompact_spec (hz : Side zero p k false) (ho : Side one p k true) (hk : k < 64)
    (hp : Aligned (k + 1) p) :
    ∃ t, maybeCompact (fork p (prefixMask 64 (k + 1)) zero one) = some t ∧
      Canon t p (k + 1) ∧ ∀ a, t.Free a ↔ zero.Free a ∨ one.Free a := by
  obtain ⟨pz, kz, hcz, hkz, -, -⟩ := id hz
  obtain ⟨po, ko, hco, hko, -, -⟩ := id ho
  -- the guard of the source, in terms of levels
  have hguard : ∀ j ≤ k, prefixMask 64 j <<< 1 = prefixMask 64 (k + 1) ↔ j = k := by
    intro j hj
    rw [prefixMask_shiftLeft_one, prefixMask_inj (by omega) (by omega)]
    omega
  simp only [maybeCompact, hcz.segMask, hco.segMask, Option.pure_def, Option.bind_eq_bind,
    Option.bind_some, hguard kz hkz, hguard ko hko]
  by_cases hcond : kz = k ∧ ko = k ∧ zero.isLeaf ∧ one.isLeaf
  · rw [if_pos hcond]
    obtain ⟨rfl, rfl, hlz, hlo⟩ := hcond
    refine ⟨_, rfl, .leaf hk hp, fun a => ?_⟩
    rw [free_leaf_iff hp, hz.free_iff_of_leaf hlz hcz.segMask hk,
      ho.free_iff_of_leaf hlo hco.segMask hk]
    cases a.getLsbD ko <;> simp
  · rw [if_neg hcond]
    refine ⟨_, rfl, hz.canon_fork ho hk hp ?_, fun a => Iff.rfl⟩
    rintro ⟨hlz, hmz, hlo, hmo⟩
    rw [hcz.segMask, Option.some.injEq, prefixMask_inj hcz.level_le hk.le] at hmz
    rw [hco.segMask, Option.some.injEq, prefixMask_inj hco.level_le hk.le] at hmo
    exact hcond ⟨hmz, hmo, hlz, hlo⟩

/-! ### Releasing -/

/-- What releasing a block into a node yields: a canonical node for the least block around
both, that holds the released addresses too. -/
def Released (t : Trie) (p : U64) (k : ℕ) (addr : U64) (l : ℕ) (r : Option (Trie × Bool)) : Prop :=
  ∃ t' p' k', r = some (t', true) ∧ Canon t' p' k' ∧
    (∀ a, t'.Free a ↔ t.Free a ∨ SamePrefix l a addr) ∧
    ∀ u, k ≤ u → l ≤ u → SamePrefix u p addr → k' ≤ u ∧ SamePrefix u p' p

/-- Splitting puts the block on the one side of the first differing bit and the old node on
the other. -/
private theorem split_spec (h : Canon t p k) (hl : l ≤ 64) (haddr : Aligned l addr) {s : ℕ}
    (hs : s < 64) (hks : k ≤ s) (hls : l ≤ s) (hsame : SamePrefix (s + 1) p addr)
    (hbit : p.getLsbD s ≠ addr.getLsbD s) :
    Released t p k addr l
      (split t (p &&& prefixMask 64 (s + 1), prefixMask 64 (s + 1))
        (addr &&& (1#64 <<< s)) addr (prefixMask 64 l)) := by
  set ca := p &&& prefixMask 64 (s + 1) with hca
  have hcap : SamePrefix (s + 1) p ca := (samePrefix_and_prefixMask p (s + 1)).symm
  have haligned : Aligned (s + 1) ca := aligned_and_prefixMask p (s + 1)
  have hnew : Canon (leaf addr (prefixMask 64 l)) addr l := .leaf hl haddr
  have hold : Side t ca s (p.getLsbD s) := ⟨p, k, h, hks, hcap, rfl⟩
  have hadd : Side (leaf addr (prefixMask 64 l)) ca s (addr.getLsbD s) :=
    ⟨addr, l, hnew, hls, hsame.symm.trans hcap, rfl⟩
  -- the new root lies inside every block around both
  have hinside : ∀ u, k ≤ u → l ≤ u → SamePrefix u p addr →
      s + 1 ≤ u ∧ SamePrefix u ca p := by
    intro u _ _ hu
    have hsu : s + 1 ≤ u := by
      by_contra hlt
      exact hbit (samePrefix_iff.mp hu s (by omega))
    exact ⟨hsu, (hcap.mono hsu).symm⟩
  rw [split]
  by_cases hzero : addr.getLsbD s = false
  · have hone : p.getLsbD s = true := by rw [hzero] at hbit; simpa using hbit
    rw [hone] at hold
    rw [hzero] at hadd
    obtain ⟨t', ht', hc', hfree⟩ := maybeCompact_spec hadd hold hs haligned
    rw [if_pos ((and_one_shiftLeft_eq_zero_iff hs).mpr hzero), ht']
    refine ⟨t', ca, s + 1, rfl, hc', fun a => ?_, hinside⟩
    rw [hfree, free_leaf_iff haddr]
    exact or_comm
  · have hone : addr.getLsbD s = true := by simpa using hzero
    have hzero' : p.getLsbD s = false := by rw [hone] at hbit; simpa using hbit
    rw [hzero'] at hold
    rw [hone] at hadd
    obtain ⟨t', ht', hc', hfree⟩ := maybeCompact_spec hold hadd hs haligned
    rw [if_neg fun hc => hzero ((and_one_shiftLeft_eq_zero_iff hs).mp hc), ht']
    refine ⟨t', ca, s + 1, rfl, hc', fun a => ?_, hinside⟩
    rw [hfree, free_leaf_iff haddr]

/-- A block disjoint from a node is strictly inside their common ancestor. -/
private theorem Canon.lt_ancestor (h : Canon t p k) (hdisj : ∀ a, SamePrefix l a addr → ¬ t.Free a)
    {T : ℕ} (hkT : k ≤ T) (hlT : l ≤ T) (hsame : SamePrefix T p addr) : l < T := by
  refine lt_of_le_of_ne hlT ?_
  rintro rfl
  obtain ⟨a, ha⟩ := h.exists_free
  exact hdisj a (((h.samePrefix_of_free ha).mono hkT).trans hsame) ha

/-- The first differing bit of two paths sits just below their common ancestor. -/
private theorem bit_ne_of_least {T : ℕ} (hk : k < T + 1) (hl : l < T + 1)
    (hmin : ∀ u, k ≤ u → l ≤ u → SamePrefix u p addr → T + 1 ≤ u)
    (hsame : SamePrefix (T + 1) p addr) : p.getLsbD T ≠ addr.getLsbD T := by
  refine bit_ne_of_not_samePrefix hsame fun hT => ?_
  have := hmin T (by omega) (by omega) hT
  omega

/-- A child that takes in a block of its own side stays on that side. -/
private theorem Side.of_inside {t' : Trie} {q' : U64} {j j' : ℕ} (hsame : SamePrefix (k + 1) p addr)
    (hlk : l ≤ k) (hab : addr.getLsbD k = b) (hq : SamePrefix (k + 1) q p) (hqb : q.getLsbD k = b)
    (hj : j ≤ k) (hc' : Canon t' q' j')
    (hins : ∀ u, j ≤ u → l ≤ u → SamePrefix u q addr → j' ≤ u ∧ SamePrefix u q' q) :
    Side t' p k b := by
  have hqa : SamePrefix k q addr := samePrefix_of_bit (hq.trans hsame) (hqb.trans hab.symm)
  obtain ⟨hj', hq'⟩ := hins k hj hlk hqa
  refine ⟨q', j', hc', hj', (hq'.mono (Nat.le_succ k)).trans hq, ?_⟩
  rw [samePrefix_iff.mp hq' k le_rfl, hqb]

/-- **Releasing a block that is not free** inserts it and keeps the node canonical. -/
theorem releaseDfs_spec (h : Canon t p k) (hl : l ≤ 64) (haddr : Aligned l addr)
    (hdisj : ∀ a, SamePrefix l a addr → ¬ t.Free a) :
    Released t p k addr l (releaseDfs t addr (prefixMask 64 l)) := by
  induction h with
  | @leaf p k hk hp =>
    obtain ⟨T, hT, hca, hkT, hlT, hsame, hmin⟩ := commonAncestor_spec p addr hk hl
    have hc : Canon (leaf p (prefixMask 64 k)) p k := .leaf hk hp
    have hltT := hc.lt_ancestor hdisj hkT hlT hsame
    -- inside the leaf the block would be free already
    have hne : T ≠ k := by
      rintro rfl
      exact hdisj addr (SamePrefix.refl _ _) ((free_leaf_iff hp).mpr hsame.symm)
    obtain ⟨s, rfl⟩ : ∃ s, T = s + 1 := ⟨T - 1, by omega⟩
    simp only [releaseDfs, hca, trailingZeros_prefixMask hT, prefixMask_inj hT hl,
      prefixMask_inj hT hk]
    rw [if_neg (by omega), if_neg (by omega), if_neg (by omega)]
    exact split_spec hc hl haddr (by omega) (by omega) (by omega) hsame
      (bit_ne_of_least (by omega) (by omega) hmin hsame)
  | @fork p k zero one pz po kz ko hk hp hz hkz hpz hbz ho hko hpo hbo hfull ihz iho =>
    have hc : Canon (fork p (prefixMask 64 (k + 1)) zero one) p (k + 1) :=
      .fork hk hp hz hkz hpz hbz ho hko hpo hbo hfull
    obtain ⟨T, hT, hca, hkT, hlT, hsame, hmin⟩ := commonAncestor_spec p addr hc.level_le hl
    have hltT := hc.lt_ancestor hdisj hkT hlT hsame
    simp only [releaseDfs, hca, trailingZeros_prefixMask hT, prefixMask_inj hT hl,
      prefixMask_inj hT hc.level_le]
    rw [if_neg (by omega), if_neg (by omega)]
    by_cases hTk : T = k + 1
    · subst hTk
      rw [if_pos rfl, Nat.add_sub_cancel]
      have hsz : Side zero p k false := ⟨pz, kz, hz, hkz, hpz, hbz⟩
      have hso : Side one p k true := ⟨po, ko, ho, hko, hpo, hbo⟩
      by_cases hbit : addr.getLsbD k = false
      · obtain ⟨z', pz', kz', hrel, hcz', hfz', hins⟩ := ihz fun a ha hf => hdisj a ha (.inl hf)
        obtain ⟨t', ht', hc', hft'⟩ :=
          maybeCompact_spec (.of_inside hsame (by omega) hbit hpz hbz hkz hcz' hins) hso hk hp
        rw [if_pos ((and_one_shiftLeft_eq_zero_iff hk).mpr hbit), hrel]
        simp only [Option.bind_eq_bind, Option.bind_some, Option.pure_def, ht']
        refine ⟨t', p, k + 1, rfl, hc', fun a => ?_, fun u hu _ _ => ⟨hu, SamePrefix.refl _ _⟩⟩
        rw [hft', hfz', free_fork]
        exact or_right_comm
      · have hbit' : addr.getLsbD k = true := by simpa using hbit
        obtain ⟨o', po', ko', hrel, hco', hfo', hins⟩ := iho fun a ha hf => hdisj a ha (.inr hf)
        obtain ⟨t', ht', hc', hft'⟩ :=
          maybeCompact_spec hsz (.of_inside hsame (by omega) hbit' hpo hbo hko hco' hins) hk hp
        rw [if_neg fun h0 => hbit ((and_one_shiftLeft_eq_zero_iff hk).mp h0), hrel]
        simp only [Option.bind_eq_bind, Option.bind_some, Option.pure_def, ht']
        refine ⟨t', p, k + 1, rfl, hc', fun a => ?_, fun u hu _ _ => ⟨hu, SamePrefix.refl _ _⟩⟩
        rw [hft', hfo', free_fork]
        exact or_assoc.symm
    · rw [if_neg hTk]
      obtain ⟨s, rfl⟩ : ∃ s, T = s + 1 := ⟨T - 1, by omega⟩
      exact split_spec hc hl haddr (by omega) (by omega) (by omega) hsame
        (bit_ne_of_least (by omega) (by omega) hmin hsame)

/-! ### Acquiring -/

/-- The slot is empty, or holds a canonical node inside the block of path `p` and level `k`. -/
def Within (t : Trie) (p : U64) (k : ℕ) : Prop :=
  t = none ∨ ∃ q l, Canon t q l ∧ l ≤ k ∧ SamePrefix k q p

/-- What acquiring a block of level `l` from a slot yields: an aligned, entirely free block is
taken out, or nothing changes and there is no such block. -/
def Acquired (t : Trie) (p : U64) (k l : ℕ) (r : Option (Option U64 × Trie)) : Prop :=
  (∃ addr t', r = some (some addr, t') ∧ Aligned l addr ∧
    (∀ a, SamePrefix l a addr → t.Free a) ∧ Within t' p k ∧
    ∀ a, t'.Free a ↔ t.Free a ∧ ¬ SamePrefix l a addr) ∨
  (r = some (Option.none, t) ∧ ∀ addr, ¬ ∀ a, SamePrefix l a addr → t.Free a)

/-- What is left of a block, one level up. -/
private theorem leftOver_succ (hl : l < n) (hn : n < 64) :
    leftOver p (prefixMask 64 l) (prefixMask 64 (n + 1)) =
      fork p (prefixMask 64 (n + 1)) (leftOver p (prefixMask 64 l) (prefixMask 64 n))
        (leaf (p ||| (1#64 <<< n)) (prefixMask 64 n)) := by
  simp only [leftOver, trailingZeros_prefixMask (show l ≤ 64 by omega),
    trailingZeros_prefixMask (show n + 1 ≤ 64 by omega),
    trailingZeros_prefixMask (show n ≤ 64 by omega)]
  rw [show n + 1 - (l + 1) = n - (l + 1) + 1 by omega, List.range'_concat, foldl_append]
  simp only [foldl_cons, foldl_nil, Nat.one_mul, show l + 1 + (n - (l + 1)) = n by omega]
  rw [← prefixMask, prefixMask_shiftLeft_one]

private theorem getLsbD_or_one_shiftLeft {n i : ℕ} (hn : n < 64) :
    (p ||| (1#64 <<< n)).getLsbD i = (p.getLsbD i || decide (i = n)) := by
  rw [BitVec.getLsbD_or, getLsbD_one_shiftLeft hn]

/-- The upper half of an aligned block. -/
private theorem upper_half (hn : n < 64) (hp : Aligned (n + 1) p) :
    Aligned n (p ||| (1#64 <<< n)) ∧ SamePrefix (n + 1) (p ||| (1#64 <<< n)) p ∧
      (p ||| (1#64 <<< n)).getLsbD n = true := by
  refine ⟨aligned_iff.mpr fun i hi => ?_, samePrefix_iff.mpr fun i hi => ?_, ?_⟩
  · rw [getLsbD_or_one_shiftLeft hn, aligned_iff.mp hp i (by omega)]
    simp [show i ≠ n by omega]
  · rw [getLsbD_or_one_shiftLeft hn]
    simp [show i ≠ n by omega]
  · rw [getLsbD_or_one_shiftLeft hn]
    simp

/-- The rest of a leaf after its lowest block is taken: a canonical node that holds exactly the
other addresses of the leaf. It fills no block by itself. -/
private theorem leftOver_spec (hl : l < n) (hn : n ≤ 64) (hp : Aligned n p) :
    ∃ q j, Canon (leftOver p (prefixMask 64 l) (prefixMask 64 n)) q j ∧ j ≤ n ∧
      SamePrefix n q p ∧
      ∀ a, (leftOver p (prefixMask 64 l) (prefixMask 64 n)).Free a ↔
        SamePrefix n a p ∧ ¬ SamePrefix l a p := by
  induction n, hl using Nat.le_induction with
  | base =>
    obtain ⟨hal, hsame, hbit⟩ := upper_half (p := p) (n := l) (by omega) hp
    have heq : leftOver p (prefixMask 64 l) (prefixMask 64 (l + 1)) =
        leaf (p ||| (1#64 <<< l)) (prefixMask 64 l) := by
      simp only [leftOver, trailingZeros_prefixMask (show l ≤ 64 by omega),
        trailingZeros_prefixMask hn, Nat.sub_self, List.range'_zero, foldl_nil]
    rw [heq]
    refine ⟨_, l, .leaf (by omega) hal, Nat.le_succ l, hsame, fun a => ?_⟩
    have hpbit : p.getLsbD l = false := aligned_iff.mp hp l (Nat.lt_succ_self l)
    rw [free_leaf_iff hal, samePrefix_pred_iff, samePrefix_pred_iff (t := l) (b := p), hbit, hpbit]
    constructor
    · rintro ⟨ha, hb⟩
      exact ⟨ha.trans hsame, fun hc => by rw [hb] at hc; simp at hc⟩
    · rintro ⟨ha, hb⟩
      refine ⟨ha.trans hsame.symm, ?_⟩
      by_contra hne
      exact hb ⟨ha, by simpa using hne⟩
  | succ n hln ih =>
    obtain ⟨q, j, hc, hj, hq, hfree⟩ := ih (by omega) (hp.mono (Nat.le_succ n))
    obtain ⟨hal, hsame, hbit⟩ := upper_half (p := p) (n := n) (by omega) hp
    have hpbit : p.getLsbD n = false := aligned_iff.mp hp n (Nat.lt_succ_self n)
    rw [leftOver_succ (by omega) (by omega)]
    have hz : Side (leftOver p (prefixMask 64 l) (prefixMask 64 n)) p n false :=
      ⟨q, j, hc, hj, hq.mono (Nat.le_succ n), by rw [samePrefix_iff.mp hq n le_rfl, hpbit]⟩
    have ho : Side (leaf (p ||| (1#64 <<< n)) (prefixMask 64 n)) p n true :=
      ⟨_, n, .leaf (by omega) hal, le_rfl, hsame, hbit⟩
    have hnot : ¬ (leftOver p (prefixMask 64 l) (prefixMask 64 n)).Free p := by
      rw [hfree]
      exact fun h => h.2 (SamePrefix.refl _ _)
    refine ⟨p, n + 1, hz.canon_fork ho (by omega) hp ?_, le_rfl, SamePrefix.refl _ _, fun a => ?_⟩
    · rintro ⟨hlz, hmz, -, -⟩
      exact hnot ((hz.free_iff_of_leaf hlz hmz (by omega)).mpr ⟨SamePrefix.refl _ _, hpbit⟩)
    · rw [free_fork, hfree, ho.free_iff_of_leaf rfl rfl (by omega), samePrefix_pred_iff (t := n),
        hpbit]
      constructor
      · rintro (⟨⟨ha, -⟩, hb⟩ | ⟨ha, hb⟩)
        · exact ⟨ha, hb⟩
        · refine ⟨ha, fun hc => ?_⟩
          rw [samePrefix_iff.mp hc n (by omega), hpbit] at hb
          simp at hb
      · rintro ⟨ha, hb⟩
        by_cases hbit' : a.getLsbD n = false
        · exact .inl ⟨⟨ha, hbit'⟩, hb⟩
        · exact .inr ⟨ha, by simpa using hbit'⟩

/-- A block inside a canonical node is no larger than the node. -/
theorem Canon.level_le_of_block (h : Canon t p k) (hblock : ∀ a, SamePrefix l a addr → t.Free a)
    (hl : l ≤ 64) : l ≤ k := by
  by_contra hlt
  have hk : k < 64 := by omega
  have haddr := h.samePrefix_of_free (hblock addr (SamePrefix.refl _ _))
  have hflip : SamePrefix l (addr ^^^ (1#64 <<< k)) addr := samePrefix_iff.mpr fun i hi => by
    rw [BitVec.getLsbD_xor, getLsbD_one_shiftLeft hk]
    simp [show i ≠ k by omega]
  have hbit := samePrefix_iff.mp
    ((h.samePrefix_of_free (hblock _ hflip)).trans haddr.symm) k le_rfl
  rw [BitVec.getLsbD_xor, getLsbD_one_shiftLeft hk] at hbit
  simp at hbit

/-- What is left of a child is empty or stays on its side. -/
private theorem Within.side (h : Within t q l) (hl : l ≤ k) (hq : SamePrefix (k + 1) q p)
    (hqb : q.getLsbD k = b) : t = none ∨ Side t p k b := by
  refine h.imp_right ?_
  rintro ⟨q', l', hc, hl', hq'⟩
  refine ⟨q', l', hc, by omega, (hq'.mono (by omega)).trans hq, ?_⟩
  rw [samePrefix_iff.mp hq' k hl, hqb]

/-- A child is a node inside the parent's block. -/
private theorem Side.within (h : Side t p k b) : Within t p (k + 1) := by
  obtain ⟨q, l, hc, hl, hq, -⟩ := h
  exact .inr ⟨q, l, hc, by omega, hq⟩

private theorem rejoin_of_ne_none {m : U64} (hz : zero ≠ none) (ho : one ≠ none) :
    rejoin p m zero one = some (fork p m zero one) := by
  cases zero with
  | none => exact absurd rfl hz
  | leaf | fork =>
    cases one with
    | none => exact absurd rfl ho
    | leaf | fork => rfl

/-- Rejoining children of which one has a missing address: no panic, no address lost. -/
private theorem rejoin_spec (hz : zero = none ∨ Side zero p k false)
    (ho : one = none ∨ Side one p k true) (hne : zero ≠ none ∨ one ≠ none) (hk : k < 64)
    (hp : Aligned (k + 1) p) (ha : SamePrefix (k + 1) a p)
    (hna : ¬ zero.Free a ∧ ¬ one.Free a) :
    ∃ t, rejoin p (prefixMask 64 (k + 1)) zero one = some t ∧ Within t p (k + 1) ∧
      ∀ x, t.Free x ↔ zero.Free x ∨ one.Free x := by
  rcases hz with rfl | hz
  · rcases ho with rfl | ho
    · simp at hne
    · refine ⟨one, ?_, ho.within, fun x => by simp⟩
      cases one with
      | none => simp at hne
      | leaf | fork => rfl
  · have hz0 : zero ≠ none := by
      obtain ⟨_, _, hc, -⟩ := hz
      exact hc.ne_none
    rcases ho with rfl | ho
    · refine ⟨zero, ?_, hz.within, fun x => by simp⟩
      cases zero with
      | none => exact absurd rfl hz0
      | leaf | fork => rfl
    · have ho0 : one ≠ none := by
        obtain ⟨_, _, hc, -⟩ := ho
        exact hc.ne_none
      refine ⟨_, rejoin_of_ne_none hz0 ho0,
        .inr ⟨p, k + 1, hz.canon_fork ho hk hp ?_, le_rfl, SamePrefix.refl _ _⟩,
        fun x => Iff.rfl⟩
      rintro ⟨hlz, hmz, hlo, hmo⟩
      -- the missing address would lie in one of two full halves
      rw [hz.free_iff_of_leaf hlz hmz hk, ho.free_iff_of_leaf hlo hmo hk] at hna
      cases hbit : a.getLsbD k with
      | false => exact hna.1 ⟨ha, hbit⟩
      | true => exact hna.2 ⟨ha, hbit⟩

/-- **Acquiring** takes an aligned, entirely free block out of a canonical node, or the node
has no such block. -/
theorem acquireDfs_spec (h : Canon t p k) (hl : l ≤ 64) :
    Acquired t p k l (acquireDfs t (prefixMask 64 l)) := by
  induction h with
  | @leaf p k hk hp =>
    simp only [acquireDfs, leadingOnes_prefixMask hk, leadingOnes_prefixMask hl]
    rcases Nat.lt_trichotomy k l with hlt | rfl | hlt
    · rw [Nat.compare_eq_gt.mpr (by omega)]
      refine .inr ⟨rfl, fun addr hblock => ?_⟩
      exact absurd ((Canon.leaf hk hp).level_le_of_block hblock hl) (by omega)
    · rw [Nat.compare_eq_eq.mpr rfl]
      refine .inl ⟨p, none, rfl, hp, fun a ha => (free_leaf_iff hp).mpr ha, .inl rfl, fun a => ?_⟩
      rw [free_leaf_iff hp]
      exact ⟨fun hf => hf.elim, fun hf => hf.2 hf.1⟩
    · rw [Nat.compare_eq_lt.mpr (by omega)]
      obtain ⟨q, j, hc, hj, hq, hfree⟩ := leftOver_spec hlt hk hp
      refine .inl ⟨p, _, rfl, hp.mono hlt.le,
        fun a ha => (free_leaf_iff hp).mpr (ha.mono hlt.le), .inr ⟨q, j, hc, hj, hq⟩,
        fun a => ?_⟩
      rw [hfree, free_leaf_iff hp]
  | @fork p k zero one pz po kz ko hk hp hz hkz hpz hbz ho hko hpo hbo hfull ihz iho =>
    have hc : Canon (fork p (prefixMask 64 (k + 1)) zero one) p (k + 1) :=
      .fork hk hp hz hkz hpz hbz ho hko hpo hbo hfull
    have hsz : Side zero p k false := ⟨pz, kz, hz, hkz, hpz, hbz⟩
    have hso : Side one p k true := ⟨po, ko, ho, hko, hpo, hbo⟩
    simp only [acquireDfs, leadingOnes_prefixMask hc.level_le, leadingOnes_prefixMask hl]
    rcases Nat.lt_or_ge l (k + 1) with hlt | hge
    · rw [Nat.compare_eq_lt.mpr (by omega)]
      rcases ihz with ⟨addr, z', hz', haddr, hblock, hwithin, hfree⟩ | ⟨hz', hnone⟩
      · -- the block comes from the first child
        have haf := hblock addr (SamePrefix.refl _ _)
        have hout : ∀ a, one.Free a → ¬ SamePrefix l a addr := by
          intro a ha hsame
          have hbit := hso.bit_of_free ha
          rw [samePrefix_iff.mp hsame k (by omega), hsz.bit_of_free haf] at hbit
          simp at hbit
        obtain ⟨t', ht', hw', hfree'⟩ := rejoin_spec (a := addr) (hwithin.side hkz hpz hbz)
          (.inr hso) (.inr ho.ne_none) hk hp (hsz.samePrefix_of_free haf)
          ⟨fun hn => ((hfree addr).mp hn).2 (SamePrefix.refl _ _),
            fun hn => hout addr hn (SamePrefix.refl _ _)⟩
        refine .inl ⟨addr, t', ?_, haddr, fun a ha => .inl (hblock a ha), hw', fun a => ?_⟩
        · simp only [hz', Option.bind_eq_bind, Option.bind_some, ht', Option.pure_def]
        · rw [hfree', hfree, free_fork, or_and_right]
          exact or_congr_right ⟨fun ha => ⟨ha, hout a ha⟩, And.left⟩
      · rcases iho with ⟨addr, o', ho', haddr, hblock, hwithin, hfree⟩ | ⟨ho', hnone'⟩
        · -- the first child has no such block, the second one has
          have haf := hblock addr (SamePrefix.refl _ _)
          have hout : ∀ a, zero.Free a → ¬ SamePrefix l a addr := by
            intro a ha hsame
            have hbit := hsz.bit_of_free ha
            rw [samePrefix_iff.mp hsame k (by omega), hso.bit_of_free haf] at hbit
            simp at hbit
          obtain ⟨t', ht', hw', hfree'⟩ := rejoin_spec (a := addr) (.inr hsz)
            (hwithin.side hko hpo hbo) (.inl hz.ne_none) hk hp (hso.samePrefix_of_free haf)
            ⟨fun hn => hout addr hn (SamePrefix.refl _ _),
              fun hn => ((hfree addr).mp hn).2 (SamePrefix.refl _ _)⟩
          refine .inl ⟨addr, t', ?_, haddr, fun a ha => .inr (hblock a ha), hw', fun a => ?_⟩
          · simp only [hz', ho', Option.bind_eq_bind, Option.bind_some, ht', Option.pure_def]
          · rw [hfree', hfree, free_fork, or_and_right]
            exact or_congr_left ⟨fun ha => ⟨ha, hout a ha⟩, And.left⟩
        · -- a block smaller than the fork lies on one side of its split bit
          refine .inr ⟨?_, fun addr hblock => ?_⟩
          · simp only [hz', ho', Option.bind_eq_bind, Option.bind_some, Option.pure_def,
              rejoin_of_ne_none hz.ne_none ho.ne_none]
          · have hbit : ∀ a, SamePrefix l a addr → a.getLsbD k = addr.getLsbD k :=
              fun a ha => samePrefix_iff.mp ha k (by omega)
            cases haddr : addr.getLsbD k with
            | false =>
              refine hnone addr fun a ha => (hblock a ha).resolve_right fun hf => ?_
              have := (hso.bit_of_free hf).symm.trans ((hbit a ha).trans haddr)
              simp at this
            | true =>
              refine hnone' addr fun a ha => (hblock a ha).resolve_left fun hf => ?_
              have := (hsz.bit_of_free hf).symm.trans ((hbit a ha).trans haddr)
              simp at this
    · -- the only block of this size would be the whole fork, which is not full
      have hfail : ∀ addr, ¬ ∀ a, SamePrefix l a addr →
          (fork p (prefixMask 64 (k + 1)) zero one).Free a := by
        intro addr hblock
        have hlk := hc.level_le_of_block hblock hl
        obtain rfl : l = k + 1 := by omega
        have haddr := hc.samePrefix_of_free (hblock addr (SamePrefix.refl _ _))
        have := hc.eq_leaf_of_full fun a ha => hblock a (ha.trans haddr.symm)
        simp at this
      rcases Nat.eq_or_lt_of_le hge with heq | hgt
      · rw [Nat.compare_eq_eq.mpr (by omega)]
        exact .inr ⟨rfl, hfail⟩
      · rw [Nat.compare_eq_gt.mpr (by omega)]
        exact .inr ⟨rfl, hfail⟩

/-! ### Whole tries -/

/-- A well-formed root: empty or canonical. -/
def Ok (t : Trie) : Prop := t = none ∨ ∃ p k, Canon t p k

theorem ok_none : Ok none := .inl rfl

theorem Canon.ok (h : Canon t p k) : Ok t := .inr ⟨p, k, h⟩

/-- **Release.** A block disjoint from the free space of a well-formed trie is inserted. -/
theorem Ok.release (h : Ok t) (hl : l ≤ 64) (haddr : Aligned l addr)
    (hdisj : ∀ a, SamePrefix l a addr → ¬ t.Free a) :
    ∃ t', releaseDfs t addr (prefixMask 64 l) = some (t', true) ∧ Ok t' ∧
      ∀ a, t'.Free a ↔ t.Free a ∨ SamePrefix l a addr := by
  rcases h with rfl | ⟨p, k, hc⟩
  · refine ⟨_, rfl, (Canon.leaf hl haddr).ok, fun a => ?_⟩
    rw [free_leaf_iff haddr]
    simp
  · obtain ⟨t', p', k', heq, hc', hfree, -⟩ := releaseDfs_spec hc hl haddr hdisj
    exact ⟨t', heq, hc'.ok, hfree⟩

/-- **Acquire.** A well-formed trie yields an aligned, entirely free block, or has none. -/
theorem Ok.acquire (h : Ok t) (hl : l ≤ 64) :
    (∃ addr t', acquireDfs t (prefixMask 64 l) = some (some addr, t') ∧ Aligned l addr ∧
      (∀ a, SamePrefix l a addr → t.Free a) ∧ Ok t' ∧
      ∀ a, t'.Free a ↔ t.Free a ∧ ¬ SamePrefix l a addr) ∨
    (acquireDfs t (prefixMask 64 l) = some (Option.none, t) ∧
      ∀ addr, ¬ ∀ a, SamePrefix l a addr → t.Free a) := by
  rcases h with rfl | ⟨p, k, hc⟩
  · exact .inr ⟨rfl, fun addr hblock => hblock addr (SamePrefix.refl _ _)⟩
  · rcases acquireDfs_spec hc hl with ⟨addr, t', heq, haddr, hblock, hw, hfree⟩ | hnone
    · exact .inl ⟨addr, t', heq, haddr, hblock, hw.imp_right fun ⟨q, j, hq, _⟩ => ⟨q, j, hq⟩, hfree⟩
    · exact .inr hnone

/-- **Drain.** The free space of one well-formed trie is united with that of another. -/
theorem Canon.drain (h : Canon s p k) (ht : Ok t) (hdisj : ∀ a, s.Free a → ¬ t.Free a) :
    ∃ t', drainDfs s t = some t' ∧ Ok t' ∧ ∀ a, t'.Free a ↔ t.Free a ∨ s.Free a := by
  induction h generalizing t with
  | @leaf p k hk hp =>
    obtain ⟨t', heq, hok, hfree⟩ := ht.release hk hp fun a ha =>
      hdisj a ((free_leaf_iff hp).mpr ha)
    refine ⟨t', ?_, hok, fun a => ?_⟩
    · simp only [drainDfs, heq, Option.bind_eq_bind, Option.bind_some, Option.pure_def]
    · rw [hfree, free_leaf_iff hp]
  | @fork p k zero one pz po kz ko hk hp hz hkz hpz hbz ho hko hpo hbo hfull ihz iho =>
    have hside := fun a => Canon.free_fork_side (a := a) hz hkz hbz ho hko hbo
    obtain ⟨t₁, heq₁, hok₁, hfree₁⟩ := ihz ht fun a ha => hdisj a (.inl ha)
    obtain ⟨t₂, heq₂, hok₂, hfree₂⟩ := iho hok₁ fun a ha hc => by
      rcases (hfree₁ a).mp hc with hc | hc
      · exact hdisj a (.inr ha) hc
      · have := ((hside a).1 hc).symm.trans ((hside a).2 ha)
        simp at this
    refine ⟨t₂, ?_, hok₂, fun a => ?_⟩
    · simp only [drainDfs, heq₁, Option.bind_eq_bind, Option.bind_some, heq₂]
    · rw [hfree₂, hfree₁, free_fork, or_assoc]

theorem Ok.drain (h : Ok s) (ht : Ok t) (hdisj : ∀ a, s.Free a → ¬ t.Free a) :
    ∃ t', drainDfs s t = some t' ∧ Ok t' ∧ ∀ a, t'.Free a ↔ t.Free a ∨ s.Free a := by
  rcases h with rfl | ⟨p, k, hc⟩
  · exact ⟨t, rfl, ht, fun a => by simp⟩
  · exact hc.drain ht hdisj

/-- The free blocks of a well-formed trie are aligned and pairwise disjoint. -/
theorem Ok.blocks (h : Ok t) :
    (∀ b ∈ t.blocks, ∃ k ≤ 64, b.2 = prefixMask 64 k ∧ Aligned k b.1) ∧
      t.blocks.Pairwise fun b b' => ∀ a, ¬ (a &&& b.2 = b.1 ∧ a &&& b'.2 = b'.1) := by
  rcases h with rfl | ⟨p, k, hc⟩
  · exact ⟨fun b hb => by simp [Trie.blocks] at hb, List.Pairwise.nil⟩
  induction hc with
  | leaf hk hp =>
    refine ⟨fun b hb => ?_, pairwise_singleton _ _⟩
    rw [Trie.blocks, mem_singleton] at hb
    subst hb
    exact ⟨_, hk, rfl, hp⟩
  | fork hk hp hz hkz hpz hbz ho hko hpo hbo hfull ihz iho =>
    have hside := fun a => Canon.free_fork_side (a := a) hz hkz hbz ho hko hbo
    refine ⟨fun b hb => ?_, pairwise_append.mpr ⟨ihz.2, iho.2, fun b hb b' hb' a h => ?_⟩⟩
    · rcases mem_append.mp hb with hb | hb
      · exact ihz.1 b hb
      · exact iho.1 b hb
    · have h0 := (hside a).1 (free_iff_mem_blocks.mpr ⟨b, hb, h.1⟩)
      have h1 := (hside a).2 (free_iff_mem_blocks.mpr ⟨b', hb', h.2⟩)
      rw [h0] at h1
      simp at h1

end Trie

end Mm1
