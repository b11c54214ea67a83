import Mathlib.Logic.Function.Basic
import Mathlib.Order.Lattice

/-!
# Leases

A key is held for a time. Its holders share it, each of them until a time of its own, or one of
them holds it exclusively. A holder whose time is over does not count, and a key that nobody holds
is free. What is held at a time is `live`; a key that is free is `none`.

* `acquire`: a holder comes, or its time is extended. A holder that is not compatible with those
  that are there is refused;
* `release`: a holder goes;
* `holder_acquire`, `holder_release_of_ne`: what becomes of the others;
* `live_live`: what is held later depends on what is held now only;
* `live_release`, `release_live_of_holder_eq_none`: whether a holder goes before or after the
  others' time is over does not matter, and a holder whose time is over may as well stay.
-/

namespace Lease

open Option Function

variable {A T : Type*}

/-- How a key is held, and by whom until when. -/
@[ext] structure Holding (A T : Type*) where
  exclusive : Bool
  holders : A → Option T

/-- Someone holds the key. -/
def Holding.IsHeld (h : Holding A T) : Prop := ∃ a, (h.holders a).isSome = true

/-- Until when `a` holds the key. -/
def holder (h : Option (Holding A T)) (a : A) : Option T := h.bind fun h => h.holders a

open Classical in
/-- A key that nobody holds is free. -/
noncomputable def keep (h : Holding A T) : Option (Holding A T) :=
  if h.IsHeld then some h else none

theorem holder_keep (h : Holding A T) (a : A) : holder (keep h) a = h.holders a := by
  rw [keep]
  split
  case isTrue => rfl
  case isFalse hfree =>
    have hnone : h.holders a = none := by
      by_contra hne
      exact hfree ⟨a, isSome_iff_ne_none.mpr hne⟩
    rw [hnone]
    rfl

/-- A change that adds no holder may come before or after the check whether there is one. -/
theorem bind_keep (f : Holding A T → Holding A T) (hf : ∀ h, (f h).IsHeld → h.IsHeld)
    (h : Holding A T) : ((keep h).bind fun h => keep (f h)) = keep (f h) := by
  by_cases hheld : h.IsHeld
  · rw [keep, if_pos hheld, bind_some]
  · have hfree : ¬ (f h).IsHeld := fun hf' => hheld (hf h hf')
    rw [keep, if_neg hheld, bind_none, keep, if_neg hfree]

/-! ### Time -/

section Time

variable [LinearOrder T] {now now' : T}

/-- Without the holders whose time is over. -/
def Holding.since (h : Holding A T) (now : T) : Holding A T :=
  { h with holders := fun a => (h.holders a).filter (now < ·) }

/-- What is held at a time. -/
noncomputable def live (now : T) (h : Option (Holding A T)) : Option (Holding A T) :=
  h.bind fun h => keep (h.since now)

theorem Holding.isHeld_of_since {h : Holding A T} (hheld : (h.since now).IsHeld) : h.IsHeld := by
  obtain ⟨a, ha⟩ := hheld
  obtain ⟨t, ht⟩ := isSome_iff_exists.mp ha
  have hmem := (filter_eq_some_iff.mp ht).1
  exact ⟨a, isSome_iff_exists.mpr ⟨t, hmem⟩⟩

theorem Holding.since_since (h : Holding A T) (hle : now ≤ now') :
    (h.since now).since now' = h.since now' := by
  refine Holding.ext rfl (funext fun a => ?_)
  have hboth : ∀ t, (now < t ∧ now' < t) ↔ now' < t :=
    fun t => ⟨fun h => h.2, fun h => ⟨lt_of_le_of_lt hle h, h⟩⟩
  ext t
  simp only [Holding.since, filter_eq_some_iff, decide_eq_true_eq, and_assoc, hboth]

/-- **What is held later** depends on what is held now only. -/
theorem live_live (h : Option (Holding A T)) (hle : now ≤ now') :
    live now' (live now h) = live now' h := by
  cases h with
  | none => rfl
  | some h =>
    have hbind := bind_keep (fun h => h.since now') (fun h => Holding.isHeld_of_since) (h.since now)
    rw [h.since_since hle] at hbind
    exact hbind

theorem holder_live (h : Option (Holding A T)) (a : A) :
    holder (live now h) a = (holder h a).filter (now < ·) := by
  cases h with
  | none => rfl
  | some h => exact holder_keep (h.since now) a

theorem eq_since_of_live {h : Option (Holding A T)} {h' : Holding A T}
    (hlive : live now h = some h') : ∃ h₀, h = some h₀ ∧ h' = h₀.since now := by
  obtain ⟨h₀, rfl, hkeep⟩ := bind_eq_some_iff.mp hlive
  rw [keep] at hkeep
  split at hkeep
  case isTrue => exact ⟨h₀, rfl, (some.inj hkeep).symm⟩
  case isFalse => contradiction

end Time

/-! ### Coming and going -/

variable [DecidableEq A] {a b : A}

/-- A holder comes, or its time is extended. An exclusive holder has the key for itself. -/
def acquire (a : A) (exclusive : Bool) (until' : T) :
    Option (Holding A T) → Option (Holding A T)
  | none => some ⟨exclusive, fun b => if b = a then some until' else none⟩
  | some h =>
    if h.exclusive = exclusive ∧ (exclusive = true → (h.holders a).isSome = true) then
      some { h with holders := update h.holders a (some until') }
    else none

/-- Without a holder. -/
def Holding.without (h : Holding A T) (a : A) : Holding A T :=
  { h with holders := update h.holders a none }

/-- The one who comes. -/
theorem holder_acquire {exclusive : Bool} {t : T} {h : Option (Holding A T)} {h' : Holding A T}
    (hacq : acquire a exclusive t h = some h') (b : A) :
    holder (some h') b = if b = a then some t else holder h b := by
  cases h with
  | none =>
    obtain rfl := some.inj hacq
    rfl
  | some h =>
    rw [acquire] at hacq
    split at hacq
    case isTrue =>
      obtain rfl := some.inj hacq
      simp only [holder, bind_some, update_apply]
    case isFalse => contradiction

/-- A holder goes. -/
noncomputable def release (a : A) (h : Option (Holding A T)) : Option (Holding A T) :=
  h.bind fun h => keep (h.without a)

theorem holder_release_of_ne (h : Option (Holding A T)) (hne : b ≠ a) :
    holder (release a h) b = holder h b := by
  cases h with
  | none => rfl
  | some h =>
    refine (holder_keep (h.without a) b).trans ?_
    simp only [Holding.without, update_of_ne hne]
    rfl

theorem Holding.isHeld_of_without {h : Holding A T} (hheld : (h.without a).IsHeld) : h.IsHeld := by
  obtain ⟨b, hb⟩ := hheld
  have hne : b ≠ a := by
    rintro rfl
    simp [Holding.without] at hb
  have hsame : (h.without a).holders b = h.holders b := by
    simp only [Holding.without, update_of_ne hne]
  rw [hsame] at hb
  exact ⟨b, hb⟩

theorem Holding.without_eq_self {h : Holding A T} (ha : h.holders a = none) : h.without a = h :=
  Holding.ext rfl (update_eq_self_iff.mpr ha.symm)

variable [LinearOrder T] {now : T}

theorem Holding.since_without (h : Holding A T) :
    (h.without a).since now = (h.since now).without a := by
  refine Holding.ext rfl (funext fun b => ?_)
  simp only [Holding.since, Holding.without, update_apply]
  split
  case isTrue => rfl
  case isFalse => rfl

/-- **Going and time.** -/
theorem live_release (h : Option (Holding A T)) :
    live now (release a h) = release a (live now h) := by
  cases h with
  | none => rfl
  | some h =>
    have hfirst := bind_keep (fun h => h.since now) (fun h => Holding.isHeld_of_since) (h.without a)
    have hlast :=
      bind_keep (fun h => h.without a) (fun h => Holding.isHeld_of_without) (h.since now)
    rw [h.since_without] at hfirst
    exact hfirst.trans hlast.symm

/-- A holder whose time is over may as well go. -/
theorem release_live_of_holder_eq_none {h : Option (Holding A T)}
    (ha : holder (live now h) a = none) : release a (live now h) = live now h := by
  cases h with
  | none => rfl
  | some h =>
    have hnone : (h.since now).holders a = none := (holder_keep (h.since now) a).symm.trans ha
    have hbind :=
      bind_keep (fun h => h.without a) (fun h => Holding.isHeld_of_without) (h.since now)
    rw [Holding.without_eq_self hnone] at hbind
    exact hbind

end Lease
