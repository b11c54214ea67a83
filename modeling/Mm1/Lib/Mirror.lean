import Mm1.Lib.Settle

/-!
# A flag kept on both sides of a channel

Two parties each keep a flag. Whoever changes its own flag tells the other by a message, and
whoever receives a message writes its own flag. Nobody waits, so that messages can cross.

`Mirror w x y xy yx` is the invariant under which the two flags `x` and `y` agree once nothing
is on its way: at most one direction carries messages, or both directions carry the same value
and both flags have it already. It is kept as long as no party changes its flag to `b` while a
message of the other one with the opposite value is on its way (`Mirror.send`).
-/

namespace Settle

open List

variable {M : Type*} {w : M → Option Bool} {x y b : Bool} {xy yx : List M} {m : M}

/-- No message of `l` writes the flag. -/
def Quiet (w : M → Option Bool) (l : List M) : Prop := ∀ m ∈ l, w m = none

theorem not_quiet_iff {l : List M} : ¬ Quiet w l ↔ ∃ m ∈ l, w m ≠ none := by
  simp [Quiet]

/-- The flags `x` and `y` of two parties, with the messages from `x` to `y` and from `y` to `x`
that are on their way. -/
structure Mirror (w : M → Option Bool) (x y : Bool) (xy yx : List M) : Prop where
  left : Quiet w yx → settle w y xy = x
  right : Quiet w xy → settle w x yx = y
  crossed : ¬ Quiet w xy → ¬ Quiet w yx → x = y ∧ ∀ m ∈ xy ++ yx, w m ≠ some (!x)

namespace Mirror

theorem symm (h : Mirror w x y xy yx) : Mirror w y x yx xy where
  left := h.right
  right := h.left
  crossed hyx hxy := by
    obtain ⟨rfl, hall⟩ := h.crossed hxy hyx
    refine ⟨rfl, fun m hm => hall m ?_⟩
    rcases mem_append.mp hm with hm | hm
    · exact mem_append_right _ hm
    · exact mem_append_left _ hm

/-- Nothing is on its way: the flags agree. -/
theorem eq_of_quiet (h : Mirror w x y xy yx) (hxy : Quiet w xy) (hyx : Quiet w yx) : x = y := by
  rw [← h.left hyx, settle_of_silent hxy]

theorem start (hxy : Quiet w xy) (hyx : Quiet w yx) : Mirror w x x xy yx where
  left _ := settle_of_silent hxy
  right _ := settle_of_silent hyx
  crossed h := absurd hxy h

/-- **A party changes its flag to `b`** and tells the other one, while no message of the other
one with the opposite value is on its way. -/
theorem send (h : Mirror w (!b) y xy yx) (hm : w m = some b)
    (hyx : ∀ m ∈ yx, w m ≠ some (!b)) : Mirror w b y (xy ++ [m]) yx where
  left _ := by rw [settle_append, settle_cons, hm, settle_nil, Option.getD_some]
  right hq := by
    have := hq m (by simp)
    exact nomatch hm.symm.trans this
  crossed _ hne := by
    by_cases hq : Quiet w xy
    · -- the other party has changed its flag to the same value
      have hy : b = y := by rw [← h.right hq, settle_written hyx (not_quiet_iff.mp hne)]
      refine ⟨hy, fun m' hm' => ?_⟩
      simp only [mem_append, mem_singleton] at hm'
      rcases hm' with (hm' | rfl) | hm'
      · rw [hq m' hm']
        exact nofun
      · rw [hm]
        simp
      · exact hyx m' hm'
    · obtain ⟨-, hall⟩ := h.crossed hq hne
      obtain ⟨m', hm', hw⟩ := not_quiet_iff.mp hne
      obtain ⟨c, hc⟩ := Option.ne_none_iff_exists'.mp hw
      have h₁ := hall m' (mem_append_right _ hm')
      have h₂ := hyx m' hm'
      rw [hc] at h₁ h₂
      cases b <;> cases c <;> simp at h₁ h₂

/-- **A party handles a message** of the other one. -/
theorem recv (h : Mirror w x y xy (m :: yx)) : Mirror w ((w m).getD x) y xy yx := by
  cases hm : w m with
  | none =>
    have hquiet : Quiet w (m :: yx) ↔ Quiet w yx := by simp [Quiet, hm]
    refine ⟨fun hq => h.left (hquiet.mpr hq), fun hq => ?_, fun hxy hyx => ?_⟩
    · have := h.right hq
      rwa [settle_cons, hm] at this
    · obtain ⟨heq, hall⟩ := h.crossed hxy (mt hquiet.mp hyx)
      refine ⟨heq, fun m' hm' => hall m' ?_⟩
      rcases mem_append.mp hm' with hm' | hm'
      · exact mem_append_left _ hm'
      · exact mem_append_right _ (mem_cons_of_mem _ hm')
  | some c =>
    have hne : ¬ Quiet w (m :: yx) := fun hq => nomatch hm.symm.trans (hq m mem_cons_self)
    rw [Option.getD_some]
    by_cases hq : Quiet w xy
    · have hy : settle w c yx = y := by
        have := h.right hq
        rwa [settle_cons, hm] at this
      refine ⟨fun hyx => ?_, fun _ => hy, fun hxy => absurd hq hxy⟩
      rw [settle_of_silent hq, ← hy, settle_of_silent hyx]
    · obtain ⟨rfl, hall⟩ := h.crossed hq hne
      have hc : c = x := by
        have := hall m (mem_append_right _ mem_cons_self)
        rw [hm] at this
        exact Bool.ne_not.mp fun hc => this (congrArg some hc)
      subst hc
      refine ⟨fun _ => ?_, fun hxy => absurd hxy hq, fun _ _ => ⟨rfl, fun m' hm' => hall m' ?_⟩⟩
      · exact settle_const fun m' hm' => hall m' (mem_append_left _ hm')
      · rcases mem_append.mp hm' with hm' | hm'
        · exact mem_append_left _ hm'
        · exact mem_append_right _ (mem_cons_of_mem _ hm')

/-- A message that does not write the flag comes in between. -/
theorem insert {l l' : List M} (h : Mirror w x y (l ++ l') yx) (hm : w m = none) :
    Mirror w x y (l ++ m :: l') yx := by
  have hmem : ∀ m' ∈ l ++ m :: l', m' = m ∨ m' ∈ l ++ l' := fun m' hm' => by
    simpa only [mem_append, mem_cons, or_left_comm] using hm'
  have hquiet : Quiet w (l ++ m :: l') ↔ Quiet w (l ++ l') := by
    simp [Quiet, hm, or_imp, forall_and]
  refine ⟨fun hq => ?_, fun hq => h.right (hquiet.mp hq), fun hxy hyx => ?_⟩
  · have := h.left hq
    rw [settle_append] at this
    rwa [settle_append, settle_cons, hm]
  · obtain ⟨heq, hall⟩ := h.crossed (mt hquiet.mpr hxy) hyx
    refine ⟨heq, fun m' hm' => ?_⟩
    rcases mem_append.mp hm' with hm' | hm'
    · rcases hmem m' hm' with rfl | hm'
      · rw [hm]
        exact nofun
      · exact hall m' (mem_append_left _ hm')
    · exact hall m' (mem_append_right _ hm')

end Mirror

end Settle
