import Mathlib.Data.List.Range
import Mathlib.Data.Set.Basic

/-!
# Prefix blocks of fixed-width words

A *prefix block* of `BitVec w` is the set of words that agree with a given word on every bit
from position `t` upwards. Blocks of this shape form a laminar family: two of them are nested
or disjoint. This file develops them bitwise, together with the bit-counting functions of a
machine word (`leadingZeros`, `leadingOnes`, `trailingZeros`) at the masks that describe such
blocks.

* `SamePrefix t a b` is agreement from bit `t` upwards.
* `prefixMask w t` is the mask whose bits from `t` upwards are set.
* `Aligned t a` says that `a` is the lowest word of its block.
-/

namespace PrefixBlock

open List

variable {w : ℕ} {a b : BitVec w} {t : ℕ} {x : BitVec w} {p : ℕ → Bool}

/-! ### Agreement from a bit upwards -/

/-- The words `a` and `b` agree on every bit from position `t` upwards. -/
def SamePrefix (t : ℕ) (a b : BitVec w) : Prop := a >>> t = b >>> t

instance (t : ℕ) (a b : BitVec w) : Decidable (SamePrefix t a b) :=
  inferInstanceAs (Decidable (a >>> t = b >>> t))

/-- The same prefix, bit by bit. -/
theorem samePrefix_iff : SamePrefix t a b ↔ ∀ i, t ≤ i → a.getLsbD i = b.getLsbD i := by
  constructor
  · intro h i hi
    have hbit := congrArg (fun x : BitVec w => x.getLsbD (i - t)) h
    simpa [BitVec.getLsbD_ushiftRight, Nat.add_sub_cancel' hi] using hbit
  · intro h
    refine BitVec.eq_of_getLsbD_eq fun i _ => ?_
    simpa [BitVec.getLsbD_ushiftRight] using h (t + i) (Nat.le_add_right t i)

@[refl, simp]
theorem SamePrefix.refl (t : ℕ) (a : BitVec w) : SamePrefix t a a := rfl

theorem SamePrefix.symm (h : SamePrefix t a b) : SamePrefix t b a := Eq.symm h

theorem SamePrefix.trans {a b c : BitVec w} (h : SamePrefix t a b) (h' : SamePrefix t b c) :
    SamePrefix t a c :=
  Eq.trans h h'

theorem SamePrefix.mono {t t' : ℕ} (h : SamePrefix t a b) (htt : t ≤ t') : SamePrefix t' a b :=
  samePrefix_iff.mpr fun i hi => samePrefix_iff.mp h i (htt.trans hi)

theorem samePrefix_zero : SamePrefix 0 a b ↔ a = b := by
  simp [SamePrefix]

/-- One more bit of agreement. -/
theorem samePrefix_pred_iff :
    SamePrefix t a b ↔ SamePrefix (t + 1) a b ∧ a.getLsbD t = b.getLsbD t := by
  constructor
  · intro h
    exact ⟨h.mono (Nat.le_succ t), samePrefix_iff.mp h t le_rfl⟩
  · rintro ⟨h, hbit⟩
    refine samePrefix_iff.mpr fun i hi => ?_
    rcases Nat.eq_or_lt_of_le hi with rfl | hlt
    · exact hbit
    · exact samePrefix_iff.mp h i hlt

theorem samePrefix_of_bit (h : SamePrefix (t + 1) a b) (hbit : a.getLsbD t = b.getLsbD t) :
    SamePrefix t a b :=
  samePrefix_pred_iff.mpr ⟨h, hbit⟩

/-- Words that agree above bit `t` are ordered by that bit. -/
theorem toNat_lt_of_bit (h : SamePrefix (t + 1) a b) (ha : a.getLsbD t = false)
    (hb : b.getLsbD t = true) : a.toNat < b.toNat := by
  have hhigh := congrArg BitVec.toNat h
  simp only [BitVec.toNat_ushiftRight, Nat.shiftRight_eq_div_pow] at hhigh
  rw [Nat.pow_succ, ← Nat.div_div_eq_div_mul, ← Nat.div_div_eq_div_mul] at hhigh
  simp only [BitVec.getLsbD, Nat.testBit_eq_decide_div_mod_eq, decide_eq_false_iff_not,
    decide_eq_true_eq] at ha hb
  refine Nat.lt_of_div_lt_div (c := 2 ^ t) ?_
  omega

/-- Words whose prefixes differ at `t` but agree above it differ in bit `t`. -/
theorem bit_ne_of_not_samePrefix (h : SamePrefix (t + 1) a b) (hn : ¬ SamePrefix t a b) :
    a.getLsbD t ≠ b.getLsbD t :=
  fun hbit => hn (samePrefix_of_bit h hbit)

/-! ### The masks of prefix blocks -/

/-- The mask of a block: every bit from `t` upwards is set. -/
def prefixMask (w t : ℕ) : BitVec w := BitVec.allOnes w <<< t

/-- The bits of a mask. -/
@[simp]
theorem getLsbD_prefixMask (t i : ℕ) :
    (prefixMask w t).getLsbD i = (decide (i < w) && decide (t ≤ i)) := by
  rw [prefixMask, BitVec.getLsbD_shiftLeft, BitVec.getLsbD_allOnes]
  by_cases hi : i < w
  · by_cases ht : t ≤ i
    · simp [hi, ht, show i - t < w by omega]
    · simp [ht]
  · simp [hi]

theorem getLsbD_and_prefixMask (a : BitVec w) (t i : ℕ) :
    (a &&& prefixMask w t).getLsbD i = (a.getLsbD i && decide (t ≤ i)) := by
  rw [BitVec.getLsbD_and, getLsbD_prefixMask]
  by_cases hi : i < w
  · simp only [hi, decide_true, Bool.true_and]
  · simp [BitVec.getLsbD_of_ge a i (Nat.le_of_not_lt hi)]

/-- A mask tells its level. -/
theorem prefixMask_inj {t t' : ℕ} (ht : t ≤ w) (ht' : t' ≤ w) :
    prefixMask w t = prefixMask w t' ↔ t = t' := by
  refine ⟨fun h => ?_, fun h => by rw [h]⟩
  by_contra hne
  -- the smaller position is set in one mask only
  rcases Nat.lt_or_gt_of_ne hne with hlt | hlt
  · have hbit := congrArg (fun x : BitVec w => x.getLsbD t) h
    simp only [getLsbD_prefixMask] at hbit
    simp [show t < w by omega, show ¬ t' ≤ t by omega] at hbit
  · have hbit := congrArg (fun x : BitVec w => x.getLsbD t') h
    simp only [getLsbD_prefixMask] at hbit
    simp [show t' < w by omega, show ¬ t ≤ t' by omega] at hbit

@[simp]
theorem prefixMask_width : prefixMask w w = 0#w := by
  refine BitVec.eq_of_getLsbD_eq fun i hi => ?_
  simp [Nat.not_le_of_lt hi]

theorem prefixMask_and (s t : ℕ) : prefixMask w s &&& prefixMask w t = prefixMask w (max s t) := by
  refine BitVec.eq_of_getLsbD_eq fun i hi => ?_
  rw [getLsbD_and_prefixMask, getLsbD_prefixMask, getLsbD_prefixMask]
  simp [hi]

theorem prefixMask_shiftLeft_one (t : ℕ) : prefixMask w t <<< 1 = prefixMask w (t + 1) := by
  rw [prefixMask, prefixMask, ← BitVec.shiftLeft_add]

/-- Masking keeps the prefix. -/
theorem samePrefix_and_prefixMask (a : BitVec w) (t : ℕ) : SamePrefix t (a &&& prefixMask w t) a :=
  samePrefix_iff.mpr fun i hi => by rw [getLsbD_and_prefixMask]; simp [hi]

/-- Masking is exactly what `SamePrefix` compares. -/
theorem and_prefixMask_eq_iff : a &&& prefixMask w t = b &&& prefixMask w t ↔ SamePrefix t a b := by
  constructor
  · intro h
    exact (samePrefix_and_prefixMask a t).symm.trans (h ▸ samePrefix_and_prefixMask b t)
  · intro h
    refine BitVec.eq_of_getLsbD_eq fun i _ => ?_
    rw [getLsbD_and_prefixMask, getLsbD_and_prefixMask]
    by_cases ht : t ≤ i
    · rw [samePrefix_iff.mp h i ht]
    · simp [ht]

/-- A word is **aligned** to `t` when it has no bit below `t`. -/
def Aligned (t : ℕ) (a : BitVec w) : Prop := a &&& prefixMask w t = a

instance (t : ℕ) (a : BitVec w) : Decidable (Aligned t a) :=
  inferInstanceAs (Decidable (a &&& prefixMask w t = a))

/-- Aligned, bit by bit. -/
theorem aligned_iff {a : BitVec w} : Aligned t a ↔ ∀ i, i < t → a.getLsbD i = false := by
  constructor
  · intro h i hi
    rw [← show a &&& prefixMask w t = a from h, getLsbD_and_prefixMask]
    simp [Nat.not_le_of_lt hi]
  · intro h
    refine BitVec.eq_of_getLsbD_eq fun i _ => ?_
    rw [getLsbD_and_prefixMask]
    by_cases ht : t ≤ i
    · simp [ht]
    · simp [ht, h i (by omega)]

theorem aligned_and_prefixMask (a : BitVec w) (t : ℕ) : Aligned t (a &&& prefixMask w t) := by
  rw [Aligned, BitVec.and_assoc, BitVec.and_self]

theorem aligned_zero (a : BitVec w) : Aligned 0 a :=
  aligned_iff.mpr fun _ hi => absurd hi (Nat.not_lt_zero _)

theorem Aligned.mono {t t' : ℕ} {a : BitVec w} (h : Aligned t a) (htt : t' ≤ t) : Aligned t' a :=
  aligned_iff.mpr fun i hi => aligned_iff.mp h i (by omega)

theorem and_prefixMask_eq_self_iff {a p : BitVec w} (hp : Aligned t p) :
    a &&& prefixMask w t = p ↔ SamePrefix t a p := by
  rw [← and_prefixMask_eq_iff, show p &&& prefixMask w t = p from hp]

/-- **A block is an interval**, from its lowest word to the one with all bits below `t` set. -/
theorem samePrefix_iff_le {a p : BitVec w} (hp : Aligned t p) :
    SamePrefix t a p ↔
      p.toNat ≤ a.toNat ∧ a.toNat ≤ (p ||| ~~~prefixMask w t).toNat := by
  have htop : SamePrefix t (p ||| ~~~prefixMask w t) p := by
    refine samePrefix_iff.mpr fun i hi => ?_
    by_cases hw : i < w
    · simp [hw, hi]
    · rw [BitVec.getLsbD_of_ge _ _ (Nat.le_of_not_lt hw),
        BitVec.getLsbD_of_ge _ _ (Nat.le_of_not_lt hw)]
  constructor
  · intro h
    have hmask : a &&& prefixMask w t = p := (and_prefixMask_eq_self_iff hp).mpr h
    have hor : a ||| (p ||| ~~~prefixMask w t) = p ||| ~~~prefixMask w t := by
      rw [← hmask]
      refine BitVec.eq_of_getLsbD_eq fun i hi => ?_
      simp only [BitVec.getLsbD_or, BitVec.getLsbD_and, BitVec.getLsbD_not, hi, decide_true,
        Bool.true_and]
      cases a.getLsbD i <;> cases (prefixMask w t).getLsbD i <;> rfl
    constructor
    · rw [← hmask, BitVec.toNat_and]
      exact Nat.and_le_left
    · rw [← hor, BitVec.toNat_or]
      exact Nat.left_le_or
  · rintro ⟨hlo, hhi⟩
    have hhi' := Nat.div_le_div_right (c := 2 ^ t) hhi
    refine BitVec.eq_of_toNat_eq (Nat.le_antisymm ?_ ?_)
    · have htop' := congrArg BitVec.toNat htop
      rw [BitVec.toNat_ushiftRight, BitVec.toNat_ushiftRight, Nat.shiftRight_eq_div_pow] at htop'
      rw [BitVec.toNat_ushiftRight, BitVec.toNat_ushiftRight, Nat.shiftRight_eq_div_pow]
      exact hhi'.trans htop'.le
    · rw [BitVec.toNat_ushiftRight, BitVec.toNat_ushiftRight, Nat.shiftRight_eq_div_pow,
        Nat.shiftRight_eq_div_pow]
      exact Nat.div_le_div_right hlo

/-- The word with the single bit `k`. -/
theorem getLsbD_one_shiftLeft {k i : ℕ} (hk : k < w) : (1#w <<< k).getLsbD i = decide (i = k) := by
  rw [← BitVec.twoPow_eq, BitVec.getLsbD_twoPow]
  simp [hk, eq_comm]

/-- The test of one bit. -/
theorem and_one_shiftLeft_eq_zero_iff {a : BitVec w} {k : ℕ} (hk : k < w) :
    a &&& (1#w <<< k) = 0#w ↔ a.getLsbD k = false := by
  constructor
  · intro h
    have hbit := congrArg (fun x : BitVec w => x.getLsbD k) h
    simpa only [BitVec.getLsbD_and, getLsbD_one_shiftLeft hk, decide_true, Bool.and_true,
      BitVec.getLsbD_zero] using hbit
  · intro h
    refine BitVec.eq_of_getLsbD_eq fun i _ => ?_
    rw [BitVec.getLsbD_and, getLsbD_one_shiftLeft hk, BitVec.getLsbD_zero]
    by_cases hi : i = k
    · rw [hi, h, Bool.false_and]
    · simp [hi]

/-! ### Counting bits -/

/-- The number of zero bits above the highest set bit (`w` for zero). -/
def leadingZeros (x : BitVec w) : ℕ := ((List.range w).find? fun i => x.getMsbD i).getD w

/-- The number of one bits above the highest clear bit. -/
def leadingOnes (x : BitVec w) : ℕ := ((List.range w).find? fun i => !x.getMsbD i).getD w

/-- The number of zero bits below the lowest set bit (`w` for zero). -/
def trailingZeros (x : BitVec w) : ℕ := ((List.range w).find? fun i => x.getLsbD i).getD w

/-- The first index below `n` that satisfies `p`, or `n`. -/
private theorem find?_range_getD {n k : ℕ} (hk : k ≤ n) (hlow : ∀ i < k, p i = false)
    (hat : k < n → p k = true) : ((List.range n).find? p).getD n = k := by
  rcases Nat.eq_or_lt_of_le hk with rfl | hlt
  · have hnone : (List.range k).find? p = none := by
      simp only [List.find?_eq_none, mem_range]
      intro i hi
      simp [hlow i hi]
    simp [hnone]
  · have hsome : (List.range n).find? p = some k := by
      rw [List.find?_range_eq_some]
      exact ⟨hat hlt, mem_range.mpr hlt, fun j hj => by simp [hlow j hj]⟩
    simp [hsome]

@[simp]
theorem trailingZeros_prefixMask (ht : t ≤ w) : trailingZeros (prefixMask w t) = t := by
  refine find?_range_getD ht (fun i hi => ?_) fun hlt => ?_
  · simp [Nat.not_le_of_lt hi]
  · simp [hlt]

/-- The ones of a mask. -/
@[simp]
theorem leadingOnes_prefixMask (ht : t ≤ w) : leadingOnes (prefixMask w t) = w - t := by
  refine find?_range_getD (Nat.sub_le w t) (fun i hi => ?_) fun hlt => ?_
  · rw [BitVec.getMsbD_eq_getLsbD, getLsbD_prefixMask]
    simp [show i < w by omega, show w - 1 - i < w by omega, show t ≤ w - 1 - i by omega]
  · rw [BitVec.getMsbD_eq_getLsbD, getLsbD_prefixMask]
    simp [show ¬ t ≤ w - 1 - (w - t) by omega]

private theorem find?_range_getD_le (n : ℕ) : ((List.range n).find? p).getD n ≤ n := by
  cases h : (List.range n).find? p with
  | none => simp
  | some k =>
    have hk := mem_range.mp (mem_of_find?_eq_some h)
    simpa using hk.le

theorem leadingZeros_le (x : BitVec w) : leadingZeros x ≤ w := find?_range_getD_le w

theorem leadingOnes_le (x : BitVec w) : leadingOnes x ≤ w := find?_range_getD_le w

/-- What the count of leading ones says. -/
theorem leadingOnes_spec (x : BitVec w) : (∀ i < leadingOnes x, x.getMsbD i = true) ∧
    (leadingOnes x < w → x.getMsbD (leadingOnes x) = false) := by
  rw [leadingOnes]
  cases h : (List.range w).find? fun i => !x.getMsbD i with
  | none =>
    refine ⟨fun i hi => ?_, fun hlt => absurd hlt (Nat.lt_irrefl w)⟩
    simpa using List.find?_eq_none.mp h i (mem_range.mpr hi)
  | some k =>
    obtain ⟨hk, -, hlow⟩ := List.find?_range_eq_some.mp h
    exact ⟨fun i hi => by simpa using hlow i hi, fun _ => by simpa using hk⟩

theorem trailingZeros_le (x : BitVec w) : trailingZeros x ≤ w := find?_range_getD_le w

theorem getLsbD_eq_false_of_lt_trailingZeros {i : ℕ} (hi : i < trailingZeros x) :
    x.getLsbD i = false := by
  rw [trailingZeros] at hi
  cases h : (List.range w).find? fun i => x.getLsbD i with
  | none =>
    rw [h, Option.getD_none] at hi
    simpa using List.find?_eq_none.mp h i (mem_range.mpr hi)
  | some k =>
    rw [h, Option.getD_some] at hi
    simpa using (List.find?_range_eq_some.mp h).2.2 i hi

/-- A word whose leading ones and trailing zeros make up all of it is a mask. -/
theorem eq_prefixMask (h : leadingOnes x + trailingZeros x = w) :
    x = prefixMask w (trailingZeros x) := by
  refine BitVec.eq_of_getLsbD_eq fun i hi => ?_
  rw [getLsbD_prefixMask]
  by_cases hlow : i < trailingZeros x
  · simp [getLsbD_eq_false_of_lt_trailingZeros hlow, Nat.not_le_of_lt hlow]
  · have hbit := (leadingOnes_spec x).1 (w - 1 - i) (by omega)
    rw [BitVec.getMsbD_eq_getLsbD, show w - 1 - (w - 1 - i) = i by omega] at hbit
    simpa [hi, Nat.le_of_not_lt hlow, show w - 1 - i < w by omega] using hbit

/-- The last member of a block is the last one of each smaller block that begins where the set bits
of its first member allow. -/
theorem or_not_prefixMask_leadingOnes (a : BitVec w) (t : ℕ) :
    a ||| ~~~prefixMask w (w - leadingOnes (a ||| prefixMask w t)) = a ||| ~~~prefixMask w t := by
  obtain ⟨hones, hzero⟩ := leadingOnes_spec (a ||| prefixMask w t)
  generalize leadingOnes (a ||| prefixMask w t) = ones at hones hzero ⊢
  have hle : w - ones ≤ t := by
    by_contra hlt
    have hbit := hzero (by omega)
    rw [BitVec.getMsbD_eq_getLsbD, BitVec.getLsbD_or, getLsbD_prefixMask] at hbit
    simp [show ones < w by omega, show w - 1 - ones < w by omega,
      show t ≤ w - 1 - ones by omega] at hbit
  refine BitVec.eq_of_getLsbD_eq fun i hi => ?_
  simp only [BitVec.getLsbD_or, BitVec.getLsbD_not, getLsbD_prefixMask, hi, decide_true,
    Bool.true_and]
  by_cases hti : t ≤ i
  · simp [hti, hle.trans hti]
  · by_cases hin : w - ones ≤ i
    · have hbit := hones (w - 1 - i) (by omega)
      rw [BitVec.getMsbD_eq_getLsbD, show w - 1 - (w - 1 - i) = i by omega, BitVec.getLsbD_or,
        getLsbD_prefixMask] at hbit
      have hset : a.getLsbD i = true := by simpa [hti, show w - 1 - i < w by omega] using hbit
      simp [hset]
    · simp [hti, hin]

/-- Bits above the counted length are clear. -/
theorem getLsbD_eq_false_of_leadingZeros {i : ℕ} (hi : w - leadingZeros x ≤ i) :
    x.getLsbD i = false := by
  by_cases hw : i < w
  · have hmsb : x.getMsbD (w - 1 - i) = x.getLsbD i := by
      rw [BitVec.getMsbD_eq_getLsbD, show w - 1 - (w - 1 - i) = i by omega]
      simp [show w - 1 - i < w by omega]
    rw [← hmsb]
    rw [leadingZeros] at hi
    cases h : (List.range w).find? fun i => x.getMsbD i with
    | none =>
      rw [List.find?_eq_none] at h
      simpa using h (w - 1 - i) (mem_range.mpr (by omega))
    | some k =>
      rw [h, Option.getD_some] at hi
      have hk := List.find?_range_eq_some.mp h
      have hkw := mem_range.mp hk.2.1
      simpa using hk.2.2 (w - 1 - i) (by omega)
  · exact BitVec.getLsbD_of_ge x i (Nat.le_of_not_lt hw)

/-- The bit just below the counted length is set. -/
theorem getLsbD_eq_true_of_leadingZeros (h : leadingZeros x < w) :
    x.getLsbD (w - leadingZeros x - 1) = true := by
  rw [leadingZeros] at h ⊢
  cases hf : (List.range w).find? fun i => x.getMsbD i with
  | none => rw [hf] at h; simp at h
  | some k =>
    rw [hf, Option.getD_some] at h
    have hk := (List.find?_range_eq_some.mp hf).1
    rw [BitVec.getMsbD_eq_getLsbD] at hk
    simp only [h, decide_true, Bool.true_and] at hk
    rw [Option.getD_some, show w - k - 1 = w - 1 - k by omega]
    exact hk

end PrefixBlock
