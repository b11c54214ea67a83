import Mathlib.Data.Bool.Basic
import Mathlib.Order.BooleanAlgebra.Defs

/-!
# A flag written by messages in flight

A flag is kept at the end of a first-in first-out channel. Each message writes it or leaves it:
`w m = some b` writes `b`, and `w m = none` leaves it. `settle w b l` is the value of the flag
once the messages `l`, the oldest first, are handled, if it is `b` now.

The lemmas say how the settled value changes when a message is handled, appended or lost.

`Tame w bad b l` adds when the `bad` messages come: each is handled while the flag is down, and
the flag is down in the end.
-/

namespace Settle

open List

variable {M : Type*} (w : M → Option Bool)

/-- The flag after the messages of `l` are handled. -/
def settle (b : Bool) (l : List M) : Bool := l.foldl (fun b m => (w m).getD b) b

@[simp] theorem settle_nil (b : Bool) : settle w b [] = b := rfl

@[simp] theorem settle_cons (b : Bool) (m : M) (l : List M) :
    settle w b (m :: l) = settle w ((w m).getD b) l := rfl

@[simp] theorem settle_append (b : Bool) (l l' : List M) :
    settle w b (l ++ l') = settle w (settle w b l) l' := by
  simp only [settle, foldl_append]

variable {w}

/-- Messages that do not write leave the flag. -/
theorem settle_of_silent {b : Bool} {l : List M} (h : ∀ m ∈ l, w m = none) : settle w b l = b := by
  induction l with
  | nil => rfl
  | cons m l ih =>
    rw [settle_cons, h m mem_cons_self]
    exact ih fun m hm => h m (mem_cons_of_mem _ hm)

/-- The flag stays as it is when no message writes the other value. -/
theorem settle_const {b : Bool} {l : List M} (h : ∀ m ∈ l, w m ≠ some (!b)) : settle w b l = b := by
  induction l with
  | nil => rfl
  | cons m l ih =>
    have hm : (w m).getD b = b := by
      have hne := h m mem_cons_self
      cases hw : w m with
      | none => rfl
      | some c =>
        rw [hw] at hne
        exact Bool.ne_not.mp fun hc => hne (congrArg some hc)
    rw [settle_cons, hm]
    exact ih fun m hm => h m (mem_cons_of_mem _ hm)

/-- When some message writes `b` and none the other value, the flag becomes `b`. -/
theorem settle_written {b c : Bool} {l : List M} (h : ∀ m ∈ l, w m ≠ some (!b))
    (hw : ∃ m ∈ l, w m ≠ none) : settle w c l = b := by
  obtain ⟨m, hm, hne⟩ := hw
  obtain ⟨l₁, l₂, rfl⟩ := append_of_mem hm
  have hb : w m = some b := by
    obtain ⟨d, hd⟩ := Option.ne_none_iff_exists'.mp hne
    have hne' := h m hm
    rw [hd] at hne' ⊢
    exact congrArg some (Bool.ne_not.mp fun hc => hne' (congrArg some hc))
  rw [settle_append, settle_cons, hb]
  exact settle_const fun m hm => h m (mem_append_right _ (mem_cons_of_mem _ hm))

/-- The settled value only grows with the flag. -/
theorem settle_mono {b b' : Bool} {l : List M} (hb : b = true → b' = true)
    (h : settle w b l = true) : settle w b' l = true := by
  induction l generalizing b b' with
  | nil => exact hb h
  | cons m l ih =>
    rw [settle_cons] at h ⊢
    refine ih ?_ h
    cases w m with
    | none => exact hb
    | some c => exact id

/-- A message that does not set the flag may get lost. -/
theorem settle_erase {b : Bool} {m : M} {l l' : List M} (hm : w m ≠ some true)
    (h : settle w b (l ++ m :: l') = true) : settle w b (l ++ l') = true := by
  rw [settle_append, settle_cons] at h
  rw [settle_append]
  refine settle_mono (fun hb => ?_) h
  cases hw : w m with
  | none => rwa [hw] at hb
  | some c =>
    rw [hw] at hb
    exact absurd (hw.trans (congrArg some hb)) hm

/-! ### Messages that come while the flag is down -/

variable {bad : M → Bool} {b : Bool} {m : M} {l l' : List M}

/-- Each bad message of `l` is handled while the flag is down, and the flag ends up down. -/
def Tame (w : M → Option Bool) (bad : M → Bool) : Bool → List M → Prop
  | b, [] => b = false
  | b, m :: l => (bad m = true → b = false) ∧ Tame w bad ((w m).getD b) l

theorem Tame.of_settle (hbad : ∀ m ∈ l, bad m = false) (h : settle w b l = false) :
    Tame w bad b l := by
  induction l generalizing b with
  | nil => exact h
  | cons m l ih =>
    refine ⟨fun hm => ?_, ih (fun m hm => hbad m (mem_cons_of_mem _ hm)) h⟩
    rw [hbad m mem_cons_self] at hm
    contradiction

/-- The flag may be taken down early. -/
theorem Tame.lower (h : Tame w bad b l) : Tame w bad false l := by
  induction l generalizing b with
  | nil => rfl
  | cons m l ih =>
    refine ⟨fun _ => rfl, ?_⟩
    obtain ⟨-, h⟩ := h
    cases hw : w m with
    | none =>
      rw [hw] at h
      exact ih h
    | some c => rwa [hw] at h

/-- A message may get lost while the flag is down. -/
theorem Tame.tail (h : Tame w bad b (m :: l)) : Tame w bad false l := h.2.lower

/-- What comes last may only take the flag down. -/
theorem Tame.append (h : Tame w bad b l) (hw : ∀ m ∈ l', w m ≠ some true) :
    Tame w bad b (l ++ l') := by
  induction l generalizing b with
  | cons m l ih => exact ⟨h.1, ih h.2⟩
  | nil =>
    obtain rfl : b = false := h
    induction l' with
    | nil => rfl
    | cons m l' ih =>
      have hdown : (w m).getD false = false := by
        cases hm : w m with
        | none => rfl
        | some c => exact Bool.eq_false_iff.mpr fun hc => hw m mem_cons_self (hc ▸ hm)
      refine ⟨fun _ => rfl, ?_⟩
      rw [hdown]
      exact ih fun m hm => hw m (mem_cons_of_mem _ hm)

/-- When only bad messages take the flag down in `l'`, it is down before `l'`, so that another
message may come in between. -/
theorem Tame.insert (h : Tame w bad b (l ++ l')) (hm : w m ≠ some true)
    (hl' : ∀ m ∈ l', w m = none ∨ w m = some false ∧ bad m = true) :
    Tame w bad b (l ++ m :: l') := by
  induction l generalizing b with
  | cons m l ih => exact ⟨h.1, ih h.2⟩
  | nil =>
    have hdown : b = false := by
      induction l' with
      | nil => exact h
      | cons m l' ih =>
        rcases hl' m mem_cons_self with hw | ⟨-, hbad⟩
        · refine ih (fun m hm => hl' m (mem_cons_of_mem _ hm)) ?_
          have h := h.2
          rwa [hw] at h
        · exact h.1 hbad
    refine ⟨fun _ => hdown, ?_⟩
    cases hw : w m with
    | none => exact h
    | some c =>
      obtain rfl : c = false := Bool.eq_false_iff.mpr fun hc => hm (hc ▸ hw)
      exact h.lower

end Settle
