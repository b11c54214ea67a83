import Mathlib.Data.List.Perm.Basic
import Mm1.Pool.Lease

/-!
# The life of a pool

A pool is used through `lease` calls and through drops of the leases they returned, in any
order. `Pool.State` is the pool together with the leases that are still alive; `Pool.run` folds
a sequence of operations over a new pool.

* `run_partition`: the live leases, the blocks of `main` and the blocks of `used` always
  partition the network of the pool;
* `run_lease_unavailable_iff`: a lease fails only when every block of its size meets a live
  lease, however the free space is spread over the two tries.
-/

namespace Mm1

open PrefixBlock List

namespace Pool

/-- A pool with the leases that were returned and not dropped yet. -/
structure State where
  pool : Pool
  live : List NetAddress
  deriving DecidableEq

/-- An operation on a pool: `lease(mask)`, or the drop of the `i`-th live lease. -/
inductive Op where
  | lease (mask : NetMask)
  | drop (i : ℕ)

/-- One operation. Dropping a lease that is not there does nothing. -/
def step (s : State) : Op → Option State
  | .lease m => do
    let (r, pool) ← s.pool.lease m
    match r with
    | .ok l => return { pool, live := s.live ++ [l] }
    | .error _ => return { pool, live := s.live }
  | .drop i =>
    match s.live[i]? with
    | none => some s
    | some l => do
      let pool ← s.pool.drop l
      return { pool, live := s.live.eraseIdx i }

/-- A sequence of operations on `Pool::new(n)`. -/
def run (n : NetAddress) (ops : List Op) : Option State := do
  let pool ← new n
  ops.foldlM step { pool, live := [] }

/-- The live leases and the two free spaces partition the network `n`. -/
structure State.Inv (n : NetAddress) (s : State) : Prop where
  ok : s.pool.Ok
  aligned : ∀ l ∈ s.live, l.IsAligned
  disjoint : s.live.Pairwise NetAddress.Disjoint
  leased : ∀ l ∈ s.live, ∀ a, l.Contains a → ¬ s.pool.Free a
  cover : ∀ a, (∃ l ∈ s.live, l.Contains a) ∨ s.pool.Free a ↔ n.Contains a

/-- One `lease` call keeps the partition. -/
private theorem State.Inv.lease {n : NetAddress} {s : State} (h : s.Inv n) (m : NetMask) :
    ∃ s', step s (.lease m) = some s' ∧ s'.Inv n := by
  rcases h.ok.lease m with ⟨l, p, heq, hm, hal, hblock, hok, hfree⟩ | ⟨p, heq, -, hok, hfree⟩
  · refine ⟨{ pool := p, live := s.live ++ [l] }, ?_, hok, ?_, ?_, ?_, fun a => ?_⟩
    · simp only [step, heq, Option.bind_eq_bind, Option.bind_some, Option.pure_def]
    · intro l' hl'
      rcases mem_append.mp hl' with hl' | hl'
      · exact h.aligned l' hl'
      · rw [mem_singleton.mp hl']
        exact hal
    · refine pairwise_append.mpr ⟨h.disjoint, pairwise_singleton _ _, ?_⟩
      intro l' hl' l'' hl'' a ha
      rw [mem_singleton.mp hl''] at ha
      exact h.leased l' hl' a ha.1 (hblock a ha.2)
    · intro l' hl' a ha hf
      obtain ⟨hf, hna⟩ := (hfree a).mp hf
      rcases mem_append.mp hl' with hl' | hl'
      · exact h.leased l' hl' a ha hf
      · rw [mem_singleton.mp hl'] at ha
        exact hna ha
    · rw [← h.cover a, hfree]
      simp only [mem_append, mem_singleton, or_and_right, exists_or, exists_eq_left]
      constructor
      · rintro ((hl | hl) | ⟨hf, -⟩)
        · exact .inl hl
        · exact .inr (hblock a hl)
        · exact .inr hf
      · rintro (hl | hf)
        · exact .inl (.inl hl)
        · by_cases hl : l.Contains a
          · exact .inl (.inr hl)
          · exact .inr ⟨hf, hl⟩
  · refine ⟨{ pool := p, live := s.live }, ?_, hok, h.aligned, h.disjoint, ?_, fun a => ?_⟩
    · simp only [step, heq, Option.bind_eq_bind, Option.bind_some, Option.pure_def]
    · intro l hl a ha hf
      exact h.leased l hl a ha ((hfree a).mp hf)
    · rw [← h.cover a, hfree]

/-- One drop keeps the partition. -/
private theorem State.Inv.drop {n : NetAddress} {s : State} (h : s.Inv n) (i : ℕ) :
    ∃ s', step s (.drop i) = some s' ∧ s'.Inv n := by
  cases hi : s.live[i]? with
  | none => exact ⟨s, by simp only [step, hi], h⟩
  | some l =>
    obtain ⟨hlt, hget⟩ := List.getElem?_eq_some_iff.mp hi
    -- the dropped lease together with the others, in another order
    have hperm : (l :: s.live.eraseIdx i).Perm s.live := by
      rw [← hget]
      exact getElem_cons_eraseIdx_perm hlt
    have hmem : ∀ l', l' ∈ s.live ↔ l' = l ∨ l' ∈ s.live.eraseIdx i := fun l' => by
      rw [← hperm.mem_iff, mem_cons]
    have hpair : (l :: s.live.eraseIdx i).Pairwise NetAddress.Disjoint :=
      (hperm.pairwise_iff fun h => h.symm).mpr h.disjoint
    obtain ⟨hothers, hrest⟩ := pairwise_cons.mp hpair
    have hl : l ∈ s.live := (hmem l).mpr (.inl rfl)
    obtain ⟨p, heq, hok, hfree⟩ := h.ok.drop (h.aligned l hl) (h.leased l hl)
    refine ⟨{ pool := p, live := s.live.eraseIdx i }, ?_, hok, ?_, hrest, ?_, fun a => ?_⟩
    · simp only [step, hi, heq, Option.bind_eq_bind, Option.bind_some, Option.pure_def]
    · exact fun l' hl' => h.aligned l' ((hmem l').mpr (.inr hl'))
    · intro l' hl' a ha hf
      rcases (hfree a).mp hf with hf | hf
      · exact h.leased l' ((hmem l').mpr (.inr hl')) a ha hf
      · exact hothers l' hl' a ⟨hf, ha⟩
    · rw [← h.cover a, hfree]
      simp only [hmem, or_and_right, exists_or, exists_eq_left]
      rw [or_comm (a := s.pool.Free a), or_left_comm, or_assoc]

/-- **Every run of a pool** ends without a panic in a state that partitions the network. -/
theorem run_inv (n : NetAddress) (ops : List Op) : ∃ s, run n ops = some s ∧ s.Inv n := by
  obtain ⟨p, hp, hok, hfree⟩ := new_spec n
  have hinit : State.Inv n { pool := p, live := [] } :=
    ⟨hok, by simp, List.Pairwise.nil, by simp, fun a => by simp [hfree]⟩
  simp only [run, hp, Option.bind_eq_bind, Option.bind_some]
  generalize State.mk p [] = s at hinit
  induction ops generalizing s with
  | nil => exact ⟨s, rfl, hinit⟩
  | cons op ops ih =>
    obtain ⟨s', hs', hinv⟩ : ∃ s', step s op = some s' ∧ s'.Inv n := by
      cases op with
      | lease m => exact hinit.lease m
      | drop i => exact hinit.drop i
    simp only [foldlM_cons, hs', Option.bind_eq_bind, Option.bind_some]
    exact ih s' hinv

/-! ### The partition in terms of blocks -/

/-- The blocks a pool accounts for, each as a path and the word of its mask: the live leases,
the free blocks of `main` and the free blocks of `used`. -/
def State.blocks (s : State) : List (U64 × U64) :=
  s.live.map (fun l => (l.address.intoU64, l.mask.intoU64)) ++
    s.pool.main.blocks ++ s.pool.used.blocks

/-- A block is aligned: its mask is one (`assert_valid_mask`), and its path has no bit outside
of it. -/
def BlockAligned (b : U64 × U64) : Prop :=
  leadingOnes b.2 + trailingZeros b.2 = 64 ∧ b.1 &&& ~~~b.2 = 0#64

/-- An address lies in a block. -/
def InBlock (a : U64) (b : U64 × U64) : Prop := a &&& b.2 = b.1

theorem blockAligned_of_level {b : U64 × U64} {k : ℕ} (hk : k ≤ 64)
    (hmask : b.2 = prefixMask 64 k) (hal : Aligned k b.1) : BlockAligned b := by
  rw [BlockAligned, hmask]
  refine ⟨by rw [leadingOnes_prefixMask hk, trailingZeros_prefixMask hk]; omega, ?_⟩
  rw [← show b.1 &&& prefixMask 64 k = b.1 from hal, BitVec.and_assoc, BitVec.and_not_self]
  exact BitVec.and_zero

private theorem inBlock_lease_iff {l : NetAddress} (hl : l.IsAligned) {a : U64} :
    InBlock a (l.address.intoU64, l.mask.intoU64) ↔ l.Contains a := by
  rw [InBlock, NetAddress.Contains, show l.address.intoU64 &&& l.mask.intoU64 = _ from hl]

/-- **No address is leased twice, lost or invented.** Whatever leases and drops are made on
`Pool::new(n)`, the blocks of the live leases, of `main` and of `used` are aligned, pairwise
disjoint, and cover exactly the network. -/
theorem run_partition (n : NetAddress) (ops : List Op) :
    ∃ s, run n ops = some s ∧ (∀ b ∈ s.blocks, BlockAligned b) ∧
      (s.blocks.Pairwise fun b b' => ∀ a, ¬ (InBlock a b ∧ InBlock a b')) ∧
      ∀ a, (∃ b ∈ s.blocks, InBlock a b) ↔
        a &&& n.mask.intoU64 = n.address.intoU64 &&& n.mask.intoU64 := by
  obtain ⟨s, hs, hinv⟩ := run_inv n ops
  obtain ⟨hmainAl, hmainPw⟩ := hinv.ok.main.blocks
  obtain ⟨husedAl, husedPw⟩ := hinv.ok.used.blocks
  have hfreeMain : ∀ {a b}, b ∈ s.pool.main.blocks → InBlock a b → s.pool.main.Free a :=
    fun hb ha => Trie.free_iff_mem_blocks.mpr ⟨_, hb, ha⟩
  have hfreeUsed : ∀ {a b}, b ∈ s.pool.used.blocks → InBlock a b → s.pool.used.Free a :=
    fun hb ha => Trie.free_iff_mem_blocks.mpr ⟨_, hb, ha⟩
  refine ⟨s, hs, fun b hb => ?_, ?_, fun a => ?_⟩
  · rcases mem_append.mp hb with hb | hb
    · rcases mem_append.mp hb with hb | hb
      · obtain ⟨l, hl, rfl⟩ := mem_map.mp hb
        exact blockAligned_of_level l.mask.level_le l.mask.intoU64_eq
          (NetAddress.isAligned_iff.mp (hinv.aligned l hl))
      · obtain ⟨k, hk, hmask, hal⟩ := hmainAl b hb
        exact blockAligned_of_level hk hmask hal
    · obtain ⟨k, hk, hmask, hal⟩ := husedAl b hb
      exact blockAligned_of_level hk hmask hal
  · refine pairwise_append.mpr ⟨pairwise_append.mpr ⟨?_, hmainPw, ?_⟩, husedPw, ?_⟩
    · refine pairwise_map.mpr (hinv.disjoint.imp_of_mem fun hl hl' h a ha => h a ?_)
      exact ⟨(inBlock_lease_iff (hinv.aligned _ hl)).mp ha.1,
        (inBlock_lease_iff (hinv.aligned _ hl')).mp ha.2⟩
    · intro b hb b' hb' a ha
      obtain ⟨l, hl, rfl⟩ := mem_map.mp hb
      exact hinv.leased l hl a ((inBlock_lease_iff (hinv.aligned l hl)).mp ha.1)
        (.inl (hfreeMain hb' ha.2))
    · intro b hb b' hb' a ha
      rcases mem_append.mp hb with hb | hb
      · obtain ⟨l, hl, rfl⟩ := mem_map.mp hb
        exact hinv.leased l hl a ((inBlock_lease_iff (hinv.aligned l hl)).mp ha.1)
          (.inr (hfreeUsed hb' ha.2))
      · exact hinv.ok.disjoint a (hfreeMain hb ha.1) (hfreeUsed hb' ha.2)
  · rw [← NetAddress.Contains, ← hinv.cover a, Free, Trie.free_iff_mem_blocks,
      Trie.free_iff_mem_blocks]
    simp only [State.blocks, mem_append, or_and_right, exists_or, or_assoc]
    refine or_congr_left ⟨?_, ?_⟩
    · rintro ⟨b, hb, ha⟩
      obtain ⟨l, hl, rfl⟩ := mem_map.mp hb
      exact ⟨l, hl, (inBlock_lease_iff (hinv.aligned l hl)).mp ha⟩
    · rintro ⟨l, hl, ha⟩
      exact ⟨_, mem_map.mpr ⟨l, hl, rfl⟩, (inBlock_lease_iff (hinv.aligned l hl)).mpr ha⟩

/-- **Completeness of `lease`.** In every state that a pool can reach, `lease(m)` fails exactly
when no aligned block of that size in the network is disjoint from all live leases; and a
failed call leaves the set of free addresses as it was. -/
theorem run_lease_unavailable_iff (n : NetAddress) (ops : List Op) (m : NetMask) :
    ∃ s r p, run n ops = some s ∧ s.pool.lease m = some (r, p) ∧
      (r = .error .unavailable ↔
        ¬ ∃ b : NetAddress, b.mask = m ∧ b.IsAligned ∧ (∀ a, b.Contains a → n.Contains a) ∧
          ∀ l ∈ s.live, b.Disjoint l) ∧
      (r = .error .unavailable → ∀ a, p.Free a ↔ s.pool.Free a) := by
  obtain ⟨s, hs, hinv⟩ := run_inv n ops
  -- a block is free exactly when it lies in the network and meets no live lease
  have hfree : ∀ b : NetAddress, (∀ a, b.Contains a → s.pool.Free a) ↔
      (∀ a, b.Contains a → n.Contains a) ∧ ∀ l ∈ s.live, b.Disjoint l := by
    intro b
    constructor
    · intro h
      exact ⟨fun a ha => (hinv.cover a).mp (.inr (h a ha)),
        fun l hl a ha => hinv.leased l hl a ha.2 (h a ha.1)⟩
    · rintro ⟨hin, hdisj⟩ a ha
      refine ((hinv.cover a).mpr (hin a ha)).resolve_left ?_
      rintro ⟨l, hl, hla⟩
      exact hdisj l hl a ⟨ha, hla⟩
  rcases hinv.ok.lease m with ⟨l, p, heq, hm, hal, hblock, -, -⟩ | ⟨p, heq, hnone, -, hsame⟩
  · refine ⟨s, _, p, hs, heq, ⟨nofun, fun hno => ?_⟩, nofun⟩
    exact absurd ⟨l, hm, hal, (hfree l).mp hblock⟩ hno
  · refine ⟨s, _, p, hs, heq, ⟨fun _ => ?_, fun _ => rfl⟩, fun _ => hsame⟩
    rintro ⟨b, hb, -, hin⟩
    exact hnone b hb ((hfree b).mpr hin)

end Pool

end Mm1
