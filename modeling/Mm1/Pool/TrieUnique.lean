import Mm1.Pool.TrieCalls

/-!
# The trie is determined by its free space

Canonical nodes that hold the same addresses are equal: the block of a node is the least one
around its addresses (`Canon.least`), so equal sets have equal roots, and the split bit cuts both
sets in the same way (`Canon.ext`). A first-fit search on a canonical trie is therefore complete,
and it finds the lowest block (`acquireDfs_lowest`).

`Built` collects the tries that come from an empty one by `acquire`, by `release` of blocks that
are not free, and by `drainInto` of such a trie with other addresses. `built_first_fit` puts the
results together for them.
-/

namespace Mm1

open PrefixBlock Option

namespace Trie

variable {s t t' zero one : Trie} {p q addr mask a : U64} {k l : ℕ}

/-! ### Uniqueness -/

/-- The block of a canonical node is the least one that contains its addresses. -/
private theorem Canon.least (h : Canon t p k) (hin : ∀ a, t.Free a → SamePrefix l a q)
    (hl : l ≤ 64) : k ≤ l ∧ SamePrefix l p q := by
  have hkl : k ≤ l := by
    cases h with
    | leaf hk hp =>
      have hq := hin p ((free_leaf_iff hp).mpr (SamePrefix.refl _ _))
      have hblock : ∀ a, SamePrefix k a p →
          (Trie.leaf (q &&& prefixMask 64 l) (prefixMask 64 l)).Free a := by
        intro a ha
        rw [free_leaf_iff (aligned_and_prefixMask q l)]
        exact (hin a ((free_leaf_iff hp).mpr ha)).trans (samePrefix_and_prefixMask q l).symm
      exact (Canon.leaf hl (aligned_and_prefixMask q l)).level_le_of_block hblock hk
    | fork hk hp hz hkz hpz hbz ho hko hpo hbo hfull =>
      obtain ⟨z, hfz⟩ := hz.exists_free
      obtain ⟨o, hfo⟩ := ho.exists_free
      have hside := fun a => Canon.free_fork_side (a := a) hz hkz hbz ho hko hbo
      by_contra hlt
      -- the two sides would agree on the split bit
      have hbit := samePrefix_iff.mp ((hin z (.inl hfz)).trans (hin o (.inr hfo)).symm) _
        (Nat.le_of_lt_succ (Nat.lt_of_not_le hlt))
      rw [(hside z).1 hfz, (hside o).2 hfo] at hbit
      contradiction
  obtain ⟨a, ha⟩ := h.exists_free
  exact ⟨hkl, ((h.samePrefix_of_free ha).mono hkl).symm.trans (hin a ha)⟩

private theorem eq_of_aligned (hp : Aligned k p) (hq : Aligned k q) (h : SamePrefix k p q) :
    p = q := by
  have := and_prefixMask_eq_iff.mpr h
  rwa [show p &&& prefixMask 64 k = p from hp, show q &&& prefixMask 64 k = q from hq] at this

private theorem Canon.aligned (h : Canon t p k) : Aligned k p := by
  cases h with
  | leaf _ hp | fork _ hp => exact hp

/-- Nodes that hold the same addresses are nodes of the same block. -/
private theorem Canon.block_eq (h : Canon s p k) (h' : Canon t q l)
    (hfree : ∀ a, s.Free a ↔ t.Free a) : p = q ∧ k = l := by
  obtain ⟨hkl, hpq⟩ := h.least (fun a ha => h'.samePrefix_of_free ((hfree a).mp ha)) h'.level_le
  obtain ⟨hlk, -⟩ := h'.least (fun a ha => h.samePrefix_of_free ((hfree a).mpr ha)) h.level_le
  obtain rfl : k = l := by omega
  exact ⟨eq_of_aligned h.aligned h'.aligned hpq, rfl⟩

/-- **Canonical nodes with the same addresses are equal.** -/
theorem Canon.ext (h : Canon s p k) (h' : Canon t q l) (hfree : ∀ a, s.Free a ↔ t.Free a) :
    s = t := by
  induction h generalizing t q l with
  | @leaf p k hk hp =>
    obtain ⟨rfl, rfl⟩ := Canon.block_eq (.leaf hk hp) h' hfree
    exact (h'.eq_leaf_of_full fun a ha => (hfree a).mp ((free_leaf_iff hp).mpr ha)).symm
  | @fork p k zero one pz po kz ko hk hp hz hkz hpz hbz ho hko hpo hbo hfull ihz iho =>
    have hc := Canon.fork hk hp hz hkz hpz hbz ho hko hpo hbo hfull
    obtain ⟨rfl, rfl⟩ := hc.block_eq h' hfree
    cases h' with
    | leaf _ hp' => exact hc.eq_leaf_of_full fun a ha => (hfree a).mpr ((free_leaf_iff hp').mpr ha)
    | @fork _ _ zero' one' pz' po' kz' ko' hk' hp' hz' hkz' hpz' hbz' ho' hko' hpo' hbo' hfull' =>
      have hso : Side one p k true := ⟨po, ko, ho, hko, hpo, hbo⟩
      have hso' : Side one' p k true := ⟨po', ko', ho', hko', hpo', hbo'⟩
      have hsz : Side zero p k false := ⟨pz, kz, hz, hkz, hpz, hbz⟩
      have hsz' : Side zero' p k false := ⟨pz', kz', hz', hkz', hpz', hbz'⟩
      have hzero : ∀ a, zero.Free a ↔ zero'.Free a := by
        intro a
        constructor
        · intro ha
          exact (hso'.free_fork_zero (hsz.bit_of_free ha)).mp ((hfree a).mp (.inl ha))
        · intro ha
          exact (hso.free_fork_zero (hsz'.bit_of_free ha)).mp ((hfree a).mpr (.inl ha))
      have hone : ∀ a, one.Free a ↔ one'.Free a := by
        intro a
        constructor
        · intro ha
          exact (hsz'.free_fork_one (hso.bit_of_free ha)).mp ((hfree a).mp (.inr ha))
        · intro ha
          exact (hsz.free_fork_one (hso'.bit_of_free ha)).mp ((hfree a).mpr (.inr ha))
      rw [ihz hz' hzero, iho ho' hone]

private theorem Ok.ext (hs : Ok s) (ht : Ok t) (hfree : ∀ a, s.Free a ↔ t.Free a) : s = t := by
  rcases hs with rfl | ⟨p, k, hs⟩
  · rcases ht with rfl | ⟨q, l, ht⟩
    · rfl
    · obtain ⟨a, ha⟩ := ht.exists_free
      exact ((hfree a).mpr ha).elim
  · rcases ht with rfl | ⟨q, l, ht⟩
    · obtain ⟨a, ha⟩ := hs.exists_free
      exact ((hfree a).mp ha).elim
    · exact hs.ext ht hfree

/-! ### The lowest block -/

/-- No address of a canonical node is below its path. -/
private theorem Canon.path_le (h : Canon t p k) (ha : t.Free a) : p.toNat ≤ a.toNat :=
  ((samePrefix_iff_le h.aligned).mp (h.samePrefix_of_free ha)).1

/-- **First fit.** The block that `acquire` takes is the lowest one of its size. -/
theorem acquireDfs_lowest (h : Canon t p k) (hl : l ≤ 64)
    (hr : acquireDfs t (prefixMask 64 l) = some (some addr, t'))
    (hblock : ∀ x, SamePrefix l x a → t.Free x) : addr.toNat ≤ a.toNat := by
  induction h generalizing t' with
  | @leaf p k hk hp =>
    have hle := (Canon.leaf hk hp).path_le (hblock a (SamePrefix.refl _ _))
    have haddr : p = addr := by
      rw [acquireDfs] at hr
      split at hr
      · have := (Prod.mk.inj (some.inj hr)).1
        contradiction
      · exact some.inj (Prod.mk.inj (some.inj hr)).1
      · exact some.inj (Prod.mk.inj (some.inj hr)).1
    rwa [← haddr]
  | @fork p k zero one pz po kz ko hk hp hz hkz hpz hbz ho hko hpo hbo hfull ihz iho =>
    have hc := Canon.fork hk hp hz hkz hpz hbz ho hko hpo hbo hfull
    have hsz : Side zero p k false := ⟨pz, kz, hz, hkz, hpz, hbz⟩
    have hso : Side one p k true := ⟨po, ko, ho, hko, hpo, hbo⟩
    have hlk := hc.level_le_of_block hblock hl
    rw [acquireDfs, leadingOnes_prefixMask hc.level_le, leadingOnes_prefixMask hl] at hr
    rcases Nat.lt_or_ge l (k + 1) with hlt | hge
    · rw [Nat.compare_eq_lt.mpr (by omega)] at hr
      -- the block lies on one side of the split bit
      have hbit : ∀ x, SamePrefix l x a → x.getLsbD k = a.getLsbD k :=
        fun x hx => samePrefix_iff.mp hx k (by omega)
      have hzero : a.getLsbD k = false → ∀ x, SamePrefix l x a → zero.Free x :=
        fun hside x hx => (hso.free_fork_zero ((hbit x hx).trans hside)).mp (hblock x hx)
      have hone : a.getLsbD k = true → ∀ x, SamePrefix l x a → one.Free x :=
        fun hside x hx => (hsz.free_fork_one ((hbit x hx).trans hside)).mp (hblock x hx)
      rcases acquireDfs_spec hz hl with ⟨addr', z', hz', -, hblock', -, -⟩ | ⟨hz', hnone⟩
      · simp only [hz', bind_eq_bind, bind_some, pure_def] at hr
        obtain ⟨t₁, -, heq⟩ := bind_eq_some_iff.mp hr
        obtain rfl : addr' = addr := some.inj (Prod.mk.inj (some.inj heq)).1
        cases hside : a.getLsbD k with
        | false => exact ihz hz' (hzero hside)
        | true =>
          -- a block of the second child lies above all of the first
          have hfree := hblock' addr' (SamePrefix.refl _ _)
          have ha := hone hside a (SamePrefix.refl _ _)
          have hsame := (hsz.samePrefix_of_free hfree).trans (hso.samePrefix_of_free ha).symm
          exact (toNat_lt_of_bit hsame (hsz.bit_of_free hfree) hside).le
      · simp only [hz', bind_eq_bind, bind_some, pure_def] at hr
        obtain ⟨⟨out, o'⟩, ho', hr⟩ := bind_eq_some_iff.mp hr
        obtain ⟨t₁, -, heq⟩ := bind_eq_some_iff.mp hr
        obtain rfl : out = some addr := (Prod.mk.inj (some.inj heq)).1
        cases hside : a.getLsbD k with
        | false => exact absurd (hzero hside) (hnone a)
        | true => exact iho ho' (hone hside)
    · rw [Nat.compare_eq_eq.mpr (by omega)] at hr
      have := (Prod.mk.inj (some.inj hr)).1
      contradiction

/-! ### Draining -/

/-- The debug assertions hold at every step of a drain, so a drain is its walk. -/
private theorem Canon.drainInto_eq (h : Canon s p k) (ht : Ok t)
    (hdisj : ∀ a, s.Free a → ¬ t.Free a) : s.drainInto t = s.drainDfs t := by
  induction h generalizing t with
  | @leaf p k hk hp =>
    have hdisj' : ∀ a, SamePrefix k a p → ¬ t.Free a := fun a ha =>
      hdisj a ((free_leaf_iff hp).mpr ha)
    obtain ⟨t₁, hr, hok, -⟩ := ht.release hk hp hdisj'
    rw [drainInto, drainDfs, release_eq hk hp]
    intro t₂ b hr'
    obtain ⟨rfl, -⟩ := Prod.mk.inj (some.inj (hr.symm.trans hr'))
    exact hok
  | @fork p k zero one pz po kz ko hk hp hz hkz hpz hbz ho hko hpo hbo hfull ihz iho =>
    have hside := fun a => Canon.free_fork_side (a := a) hz hkz hbz ho hko hbo
    have hdz : ∀ a, zero.Free a → ¬ t.Free a := fun a ha => hdisj a (.inl ha)
    obtain ⟨t₁, hr, hok, hfree⟩ := hz.drain ht hdz
    simp only [drainInto, drainDfs, ihz ht hdz, hr, bind_eq_bind, bind_some]
    refine iho hok fun a ha hf => ?_
    rcases (hfree a).mp hf with hf | hf
    · exact hdisj a (.inr ha) hf
    · have := ((hside a).1 hf).symm.trans ((hside a).2 ha)
      contradiction

private theorem Ok.drainInto (h : Ok s) (ht : Ok t) (hdisj : ∀ a, s.Free a → ¬ t.Free a) :
    ∃ t', s.drainInto t = some t' ∧ Ok t' ∧ ∀ a, t'.Free a ↔ t.Free a ∨ s.Free a := by
  have hdrain := h.drain ht hdisj
  rcases h with rfl | ⟨p, k, hc⟩
  · exact hdrain
  · rwa [hc.drainInto_eq ht hdisj]

/-! ### Histories -/

/-- The tries that come from an empty one by acquiring blocks, by releasing blocks that are not
free, and by draining a trie of this kind that has no address in common. -/
inductive Built : Trie → Prop
  | empty : Built none
  | acquire {t t' : Trie} {mask : U64} {out : Option U64} (h : Built t)
      (hr : t.acquire mask = some (out, t')) : Built t'
  | release {t t' : Trie} {addr mask : U64} {inserted : Bool} (h : Built t)
      (hdisj : ∀ a, Pool.InBlock a (addr, mask) → ¬ t.Free a)
      (hr : t.release addr mask = some (t', inserted)) : Built t'
  | drainInto {s t t' : Trie} (hs : Built s) (ht : Built t)
      (hdisj : ∀ a, s.Free a → ¬ t.Free a) (hr : s.drainInto t = some t') : Built t'

private theorem Built.ok (h : Built t) : Ok t := by
  induction h with
  | empty => exact ok_none
  | @acquire t t' mask out _ hr ih => exact ih.call (c := .acquire mask) (by rw [call, hr]; rfl)
  | @release t t' addr mask _ _ _ hr ih =>
    exact ih.call (c := .release addr mask) (by rw [call, hr]; rfl)
  | drainInto hs ht hdisj hr ihs iht =>
    obtain ⟨t₁, hr', hok, -⟩ := ihs.drainInto iht hdisj
    obtain rfl := some.inj (hr'.symm.trans hr)
    exact hok

/-! ### The shape of a trie -/

/-- The nodes of a trie. -/
def nodes : Trie → List Trie
  | none => []
  | leaf p m => [leaf p m]
  | fork p m zero one => fork p m zero one :: (zero.nodes ++ one.nodes)

/-- The path of the node in a slot, if there is one. -/
def segPath? : Trie → Option U64
  | none => Option.none
  | leaf p _ => some p
  | fork p _ _ _ => some p

/-- The child of a node `p`/`m` lies below it, on side `b` of its split bit. -/
def OnSide (p m : U64) (b : Bool) (child : Trie) : Prop :=
  ∃ q c, child.segPath? = some q ∧ child.segMask? = some c ∧
    leadingOnes m < leadingOnes c ∧ q &&& m = p ∧ q.getLsbD (trailingZeros m - 1) = b

/-- A fork has a child on each side of its split bit, and is not entirely free. -/
def ProperFork (p m : U64) (zero one : Trie) : Prop :=
  OnSide p m false zero ∧ OnSide p m true one ∧
    ∃ a, Pool.InBlock a (p, m) ∧ ¬ (fork p m zero one).Free a

private theorem Canon.segPath (h : Canon t p k) : t.segPath? = some p := by
  cases h with
  | leaf | fork => rfl

private theorem Side.onSide {b : Bool} (h : Side t p k b) (hk : k < 64) (hp : Aligned (k + 1) p) :
    OnSide p (prefixMask 64 (k + 1)) b t := by
  obtain ⟨q, l, hc, hl, hq, hb⟩ := h
  refine ⟨q, _, hc.segPath, hc.segMask, ?_, (and_prefixMask_eq_self_iff hp).mpr hq, ?_⟩
  · rw [leadingOnes_prefixMask hc.level_le, leadingOnes_prefixMask hk]
    omega
  · rw [trailingZeros_prefixMask hk]
    exact hb

/-- Each fork of a canonical trie is proper. -/
private theorem Canon.properFork (h : Canon t p k) {q m : U64} {z o : Trie}
    (hmem : Trie.fork q m z o ∈ t.nodes) : ProperFork q m z o := by
  induction h with
  | leaf => simp [nodes] at hmem
  | @fork p k zero one pz po kz ko hk hp hz hkz hpz hbz ho hko hpo hbo hfull ihz iho =>
    rcases List.mem_cons.mp hmem with heq | hmem
    · obtain ⟨rfl, rfl, rfl, rfl⟩ := Trie.fork.inj heq
      refine ⟨Side.onSide ⟨pz, kz, hz, hkz, hpz, hbz⟩ hk hp,
        Side.onSide ⟨po, ko, ho, hko, hpo, hbo⟩ hk hp, ?_⟩
      by_contra hall
      have := (Canon.fork hk hp hz hkz hpz hbz ho hko hpo hbo hfull).eq_leaf_of_full fun a ha => by
        by_contra hn
        exact hall ⟨a, (inBlock_iff hp).mpr ha, hn⟩
      simp at this
    · rcases List.mem_append.mp hmem with hmem | hmem
      · exact ihz hmem
      · exact iho hmem

/-! ### What a history leads to -/

/-- The answer `r` of `acquire(mask)` is the lowest aligned block that is entirely free, and
exactly that block is gone afterwards; or there is none and nothing changes. -/
def FirstFit (t : Trie) (mask : U64) (r : Option (Option U64 × Trie)) : Prop :=
  (∃ addr t', r = some (some addr, t') ∧ Pool.BlockAligned (addr, mask) ∧
    (∀ a, Pool.InBlock a (addr, mask) → t.Free a) ∧
    (∀ addr', Pool.BlockAligned (addr', mask) →
      (∀ a, Pool.InBlock a (addr', mask) → t.Free a) → addr ≤ addr') ∧
    ∀ a, t'.Free a ↔ t.Free a ∧ ¬ Pool.InBlock a (addr, mask)) ∨
  (r = some (Option.none, t) ∧ ∀ addr', Pool.BlockAligned (addr', mask) →
    ¬ ∀ a, Pool.InBlock a (addr', mask) → t.Free a)

/-- `acquire` takes the first block that fits. -/
private theorem Ok.firstFit (h : Ok t) (hmask : leadingOnes mask + trailingZeros mask = 64) :
    FirstFit t mask (t.acquire mask) := by
  obtain ⟨l, hl, rfl⟩ : ∃ l ≤ 64, mask = prefixMask 64 l :=
    ⟨_, trailingZeros_le mask, eq_prefixMask hmask⟩
  rw [h.acquire_eq hl]
  rcases h.acquire hl with ⟨addr, t', hr, haddr, hblock, -, hfree⟩ | ⟨hr, hnone⟩
  · refine .inl ⟨addr, t', hr, (blockAligned_iff hl).mpr haddr,
      fun a ha => hblock a ((inBlock_iff haddr).mp ha), fun addr' haddr' hfree' => ?_, fun a => ?_⟩
    · have hal := (blockAligned_iff hl).mp haddr'
      rcases h with rfl | ⟨p, k, hc⟩
      · exact absurd (hblock addr (SamePrefix.refl _ _)) (free_none addr)
      · exact acquireDfs_lowest hc hl hr fun x hx => hfree' x ((inBlock_iff hal).mpr hx)
    · rw [hfree, inBlock_iff haddr]
  · refine .inr ⟨hr, fun addr' haddr' hfree' => hnone addr' fun a ha => hfree' a ?_⟩
    exact (inBlock_iff ((blockAligned_iff hl).mp haddr')).mpr ha

/-- **The trie is its free space.** Two histories that lead to the same free addresses lead to
the same trie; its forks are proper; `acquire` is a first fit; and neither it, nor a release of a
block that is not free, nor a drain of other addresses panics. -/
theorem built_first_fit (hs : Built s) (ht : Built t) :
    ((∀ a, s.Free a ↔ t.Free a) → s = t) ∧
      (∀ p m zero one, fork p m zero one ∈ t.nodes → ProperFork p m zero one) ∧
      (∀ mask, leadingOnes mask + trailingZeros mask = 64 → FirstFit t mask (t.acquire mask)) ∧
      (∀ addr mask, Pool.BlockAligned (addr, mask) →
        (∀ a, Pool.InBlock a (addr, mask) → ¬ t.Free a) →
          ∃ t', t.release addr mask = some (t', true)) ∧
      ((∀ a, s.Free a → ¬ t.Free a) → ∃ t', s.drainInto t = some t') := by
  refine ⟨hs.ok.ext ht.ok, fun p m zero one hmem => ?_, fun mask => ht.ok.firstFit,
    fun addr mask hblock hdisj => ?_, fun hdisj => ?_⟩
  · rcases ht.ok with rfl | ⟨q, k, hc⟩
    · simp [nodes] at hmem
    · exact hc.properFork hmem
  · obtain ⟨l, hl, rfl, haddr⟩ := exists_level hblock
    obtain ⟨t', hr, -⟩ := ht.ok.release_of_disjoint hl haddr fun a ha =>
      hdisj a ((inBlock_iff haddr).mpr ha)
    exact ⟨t', hr⟩
  · obtain ⟨t', hr, -⟩ := hs.ok.drainInto ht.ok hdisj
    exact ⟨t', hr⟩

private theorem built_halves : Built (leaf 0x10#64 (BitVec.allOnes 64 <<< 4)) := by
  have hupper : none.release 0x18#64 (BitVec.allOnes 64 <<< 3) =
      some (leaf 0x18#64 (BitVec.allOnes 64 <<< 3), true) := by decide
  have hlower : (leaf 0x18#64 (BitVec.allOnes 64 <<< 3)).release 0x10#64
      (BitVec.allOnes 64 <<< 3) = some (leaf 0x10#64 (BitVec.allOnes 64 <<< 4), true) := by decide
  refine .release (.release .empty (fun a _ => free_none a) hupper) (fun a ha hf => ?_) hlower
  have : 0x10#64 = 0x18#64 := ha.symm.trans hf
  contradiction

/-- Two halves, the upper one released first, are the same trie as the whole block, whose lower
half is then served first. -/
theorem first_fit_of_halves :
    Built (leaf 0x10#64 (BitVec.allOnes 64 <<< 4)) ∧
      FirstFit (leaf 0x10#64 (BitVec.allOnes 64 <<< 4)) (BitVec.allOnes 64 <<< 3)
        (some (some 0x10#64, leaf 0x18#64 (BitVec.allOnes 64 <<< 3))) :=
  ⟨built_halves, (built_first_fit built_halves built_halves).2.2.1 _ (by decide)⟩

end Trie

end Mm1
