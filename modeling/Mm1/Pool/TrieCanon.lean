import Mm1.Pool.Trie

/-!
# Canonical tries

`Canon t p k` says that the slot `t` holds a canonical node for the block of path `p` and level
`k` (the number of free low bits): paths are aligned, the children of a fork lie on the proper
sides of its split bit, and no fork has two full halves. `Free t a` is the set of addresses a
slot holds. The main facts here:

* `Canon.samePrefix_of_free`: a canonical node holds addresses of its own block only;
* `Canon.eq_leaf_of_full`: a canonical node that holds its whole block is a leaf;
* `commonAncestor_spec`: `commonAncestor` computes the least block around two blocks.
-/

namespace Mm1

open PrefixBlock

/-! ### The common ancestor -/

private theorem highMask_eq (c : ℕ) : highMask c = prefixMask 64 (64 - c) := by
  cases c with
  | zero => exact prefixMask_width.symm
  | succ c => rfl

/-- The least block around two blocks: its level is the least one at which both paths agree. -/
theorem commonAncestor_spec (p q : U64) {k l : ℕ} (hk : k ≤ 64) (hl : l ≤ 64) :
    ∃ T ≤ 64, commonAncestor (p, prefixMask 64 k) (q, prefixMask 64 l)
        = (p &&& prefixMask 64 T, prefixMask 64 T) ∧
      k ≤ T ∧ l ≤ T ∧ SamePrefix T p q ∧
      ∀ u, k ≤ u → l ≤ u → SamePrefix u p q → T ≤ u := by
  set s := max k l with hs
  set x := (p &&& prefixMask 64 s) ^^^ (q &&& prefixMask 64 s) with hx
  have hbit : ∀ i, x.getLsbD i =
      ((p.getLsbD i && decide (s ≤ i)) ^^ (q.getLsbD i && decide (s ≤ i))) := by
    intro i
    rw [hx, BitVec.getLsbD_xor, getLsbD_and_prefixMask, getLsbD_and_prefixMask]
  have hc := leadingZeros_le x
  refine ⟨max (64 - leadingZeros x) s, by omega, ?_, by omega, by omega, ?_, ?_⟩
  · simp only [commonAncestor, prefixMask_and]
    rw [← hs, ← hx, highMask_eq, prefixMask_and]
  · refine samePrefix_iff.mpr fun i hi => ?_
    have hzero := getLsbD_eq_false_of_leadingZeros (x := x) (i := i) (by omega)
    rw [hbit i] at hzero
    simpa [show s ≤ i by omega] using hzero
  · intro u hku hlu hsame
    by_contra hlt
    -- the highest set bit of the difference lies at or above `u`
    have hone := getLsbD_eq_true_of_leadingZeros (x := x) (by omega)
    rw [hbit, samePrefix_iff.mp hsame (64 - leadingZeros x - 1) (by omega)] at hone
    simp at hone

namespace Trie

/-! ### The addresses of a slot -/

/-- The addresses that a slot holds. -/
def Free : Trie → U64 → Prop
  | none, _ => False
  | leaf p m, a => a &&& m = p
  | fork _ _ zero one, a => zero.Free a ∨ one.Free a

@[simp] theorem free_none (a : U64) : ¬ Free none a := id

@[simp] theorem free_fork {p m : U64} {zero one : Trie} {a : U64} :
    Free (fork p m zero one) a ↔ zero.Free a ∨ one.Free a := Iff.rfl

/-- An address is held exactly when one of the free blocks contains it. -/
theorem free_iff_mem_blocks {t : Trie} {a : U64} : t.Free a ↔ ∃ b ∈ t.blocks, a &&& b.2 = b.1 := by
  induction t with
  | none => simp [blocks]
  | leaf p m => simp [blocks, Free]
  | fork p m zero one ihz iho =>
    rw [free_fork, ihz, iho]
    simp only [blocks, List.mem_append]
    constructor
    · rintro (⟨b, hb, h⟩ | ⟨b, hb, h⟩)
      · exact ⟨b, .inl hb, h⟩
      · exact ⟨b, .inr hb, h⟩
    · rintro ⟨b, hb | hb, h⟩
      · exact .inl ⟨b, hb, h⟩
      · exact .inr ⟨b, hb, h⟩

/-! ### Canonical nodes -/

/-- A canonical node for the block of path `p` and level `k`. -/
inductive Canon : Trie → U64 → ℕ → Prop
  | leaf {p : U64} {k : ℕ} (hk : k ≤ 64) (hp : Aligned k p) :
      Canon (.leaf p (prefixMask 64 k)) p k
  | fork {p : U64} {k : ℕ} {zero one : Trie} {pz po : U64} {kz ko : ℕ}
      (hk : k < 64) (hp : Aligned (k + 1) p)
      (hz : Canon zero pz kz) (hkz : kz ≤ k)
      (hpz : SamePrefix (k + 1) pz p) (hbz : pz.getLsbD k = false)
      (ho : Canon one po ko) (hko : ko ≤ k)
      (hpo : SamePrefix (k + 1) po p) (hbo : po.getLsbD k = true)
      (hfull : ¬ (zero.isLeaf ∧ kz = k ∧ one.isLeaf ∧ ko = k)) :
      Canon (.fork p (prefixMask 64 (k + 1)) zero one) p (k + 1)

variable {t zero one : Trie} {p q a : U64} {k l : ℕ}

theorem Canon.level_le (h : Canon t p k) : k ≤ 64 := by
  cases h with
  | leaf hk _ | fork hk => exact hk

theorem Canon.segMask (h : Canon t p k) : t.segMask? = some (prefixMask 64 k) := by
  cases h with
  | leaf | fork => rfl

theorem Canon.ne_none (h : Canon t p k) : t ≠ none := by
  cases h <;> simp

/-- A canonical leaf holds exactly its block. -/
theorem free_leaf_iff (hp : Aligned k p) : Free (.leaf p (prefixMask 64 k)) a ↔ SamePrefix k a p :=
  and_prefixMask_eq_self_iff hp

/-- A canonical node holds addresses of its own block only. -/
theorem Canon.samePrefix_of_free (h : Canon t p k) (ha : t.Free a) : SamePrefix k a p := by
  induction h with
  | leaf hk hp => exact (free_leaf_iff hp).mp ha
  | fork hk hp hz hkz hpz hbz ho hko hpo hbo hfull ihz iho =>
    rcases ha with ha | ha
    · exact ((ihz ha).mono (by omega)).trans hpz
    · exact ((iho ha).mono (by omega)).trans hpo

/-- The side of its split bit on which a fork keeps an address. -/
theorem Canon.free_fork_side {pz po : U64} {kz ko : ℕ} (hz : Canon zero pz kz) (hkz : kz ≤ k)
    (hbz : pz.getLsbD k = false) (ho : Canon one po ko) (hko : ko ≤ k)
    (hbo : po.getLsbD k = true) :
    (zero.Free a → a.getLsbD k = false) ∧ (one.Free a → a.getLsbD k = true) := by
  constructor
  · intro ha
    rw [samePrefix_iff.mp (hz.samePrefix_of_free ha) k hkz, hbz]
  · intro ha
    rw [samePrefix_iff.mp (ho.samePrefix_of_free ha) k hko, hbo]

/-- A canonical node is not empty. -/
theorem Canon.exists_free (h : Canon t p k) : ∃ a, t.Free a := by
  induction h with
  | leaf hk hp => exact ⟨_, (free_leaf_iff hp).mpr (SamePrefix.refl _ _)⟩
  | fork hk hp hz hkz hpz hbz ho hko hpo hbo hfull ihz iho =>
    obtain ⟨a, ha⟩ := ihz
    exact ⟨a, .inl ha⟩

/-- Flip bit `k` of a word. -/
private def flip (a : U64) (k : ℕ) : U64 := a ^^^ (1#64 <<< k)

private theorem getLsbD_flip {i : ℕ} (hk : k < 64) :
    (flip a k).getLsbD i = (a.getLsbD i ^^ decide (i = k)) := by
  rw [flip, BitVec.getLsbD_xor, getLsbD_one_shiftLeft hk]

/-- A node that holds a whole block of level `k` and lies inside it has level `k`: otherwise
the neighbouring block would be missing. -/
private theorem Canon.level_eq_of_full (h : Canon t p k) (hkl : k ≤ l) (hl : l ≤ 64)
    (hfull : ∀ a, SamePrefix l a p → t.Free a) : k = l := by
  by_contra hne
  have hk64 : k < 64 := by omega
  have hflip : SamePrefix l (flip p k) p :=
    samePrefix_iff.mpr fun i hi => by rw [getLsbD_flip hk64]; simp [show i ≠ k by omega]
  have hbit := samePrefix_iff.mp (h.samePrefix_of_free (hfull _ hflip)) k le_rfl
  rw [getLsbD_flip hk64] at hbit
  simp at hbit

/-- **Full nodes are leaves.** A canonical node that holds every address of its block is a
leaf: this is what the merging in `maybeCompact` is for. -/
theorem Canon.eq_leaf_of_full (h : Canon t p k) (hfull : ∀ a, SamePrefix k a p → t.Free a) :
    t = .leaf p (prefixMask 64 k) := by
  induction h with
  | leaf => rfl
  | @fork p k zero one pz po kz ko hk hp hz hkz hpz hbz ho hko hpo hbo hnot ihz iho =>
    exfalso
    have hside := fun a => Canon.free_fork_side (a := a) hz hkz hbz ho hko hbo
    -- every address of a half is in the child of that half
    have hzero : ∀ a, SamePrefix k a pz → zero.Free a := by
      intro a ha
      have hbit : a.getLsbD k = false := by rw [samePrefix_iff.mp ha k le_rfl, hbz]
      rcases hfull a ((ha.mono (Nat.le_succ k)).trans hpz) with h | h
      · exact h
      · rw [(hside a).2 h] at hbit
        simp at hbit
    have hone : ∀ a, SamePrefix k a po → one.Free a := by
      intro a ha
      have hbit : a.getLsbD k = true := by rw [samePrefix_iff.mp ha k le_rfl, hbo]
      rcases hfull a ((ha.mono (Nat.le_succ k)).trans hpo) with h | h
      · rw [(hside a).1 h] at hbit
        simp at hbit
      · exact h
    obtain rfl := hz.level_eq_of_full hkz hk.le hzero
    obtain rfl := ho.level_eq_of_full hko hk.le hone
    refine hnot ⟨?_, rfl, ?_, rfl⟩
    · rw [ihz hzero]; rfl
    · rw [iho hone]; rfl

end Trie

end Mm1
