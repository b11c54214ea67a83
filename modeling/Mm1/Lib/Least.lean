import Mathlib.Order.Defs.LinearOrder

/-!
# The least of a set of values

`IsLeast P o`: `o` is the least of the values that `P` holds of, `none` if there is none. The
question is what happens to it when one value `old` is replaced by another one `new`, next to
values `Q` that stay:

* `isLeast_with_self_iff`: `new` is the least if and only if it leads the others;
* `isLeast_replace_iff`: the least stays if and only if one of the others is not worse than both.
-/

namespace Least

variable {α : Type*} [LE α] [Std.IsPartialOrder α] {P Q : α → Prop} {o o' old new : Option α}

/-- The least of the values that `P` holds of. -/
def IsLeast (P : α → Prop) : Option α → Prop
  | none => ∀ y, ¬ P y
  | some v => P v ∧ ∀ y, P y → v ≤ y

/-- The values of `Q` and one more. -/
def With (Q : α → Prop) (o : Option α) (y : α) : Prop := Q y ∨ o = some y

/-- The value is not worse than any of `Q`. -/
def Leads (Q : α → Prop) (o : Option α) : Prop := ∀ y, Q y → ∃ v ∈ o, v ≤ y

/-- One of `Q` is not worse than both values. -/
def Trails (Q : α → Prop) (old new : Option α) : Prop :=
  ∃ y, Q y ∧ (∀ v ∈ old, y ≤ v) ∧ ∀ v ∈ new, y ≤ v

instance [DecidableLE α] (l : List α) (old new : Option α) :
    Decidable (Trails (· ∈ l) old new) :=
  inferInstanceAs (Decidable (∃ y ∈ l, _))

instance [DecidableLE α] (l : List α) (o : Option α) : Decidable (Leads (· ∈ l) o) :=
  inferInstanceAs (Decidable (∀ y ∈ l, _))

theorem IsLeast.unique (h : IsLeast P o) (h' : IsLeast P o') : o = o' := by
  cases o with
  | none =>
    cases o' with
    | none => rfl
    | some v' => exact absurd h'.1 (h v')
  | some v =>
    cases o' with
    | none => exact absurd h.1 (h' v)
    | some v' => exact congrArg some (Std.le_antisymm (h.2 v' h'.1) (h'.2 v h.1))

omit [Std.IsPartialOrder α] in
theorem IsLeast.congr (h : IsLeast P o) (hPQ : ∀ y, P y ↔ Q y) : IsLeast Q o := by
  obtain rfl : P = Q := funext fun y => propext (hPQ y)
  exact h

theorem isLeast_with_self_iff : IsLeast (With Q o) o ↔ Leads Q o := by
  cases o with
  | none =>
    constructor
    · exact fun h y hy => absurd (.inl hy) (h y)
    · rintro h y (hy | hy)
      · obtain ⟨v, hv, -⟩ := h y hy
        contradiction
      · contradiction
  | some v =>
    constructor
    · exact fun h y hy => ⟨v, rfl, h.2 y (.inl hy)⟩
    · refine fun h => ⟨.inr rfl, fun y hy => ?_⟩
      rcases hy with hy | hy
      · obtain ⟨w, hw, hle⟩ := h y hy
        rwa [Option.some.inj hw]
      · rw [Option.some.inj hy]
        exact Std.le_refl y

/-- **A value is replaced by another one**: the least stays. -/
theorem isLeast_replace_iff (h : IsLeast (With Q old) o) (hne : old ≠ new) :
    IsLeast (With Q new) o ↔ Trails Q old new := by
  constructor
  · intro h'
    cases o with
    | none =>
      -- both would be `none`
      have hold : old = none := Option.eq_none_iff_forall_ne_some.mpr fun v hv => h v (.inr hv)
      have hnew : new = none := Option.eq_none_iff_forall_ne_some.mpr fun v hv => h' v (.inr hv)
      exact absurd (hold.trans hnew.symm) hne
    | some v =>
      refine ⟨v, ?_, fun u hu => h.2 u (.inr hu), fun u hu => h'.2 u (.inr hu)⟩
      rcases h.1 with hQ | hold
      · exact hQ
      · rcases h'.1 with hQ | hnew
        · exact hQ
        · exact absurd (hold.trans hnew.symm) hne
  · rintro ⟨y, hy, hold, hnew⟩
    cases o with
    | none => exact absurd (.inl hy) (h y)
    | some v =>
      have hvy : v ≤ y := h.2 y (.inl hy)
      refine ⟨.inl ?_, fun z hz => ?_⟩
      · rcases h.1 with hQ | hv
        · exact hQ
        · rwa [Std.le_antisymm hvy (hold v hv)]
      · rcases hz with hz | hz
        · exact h.2 z (.inl hz)
        · exact Std.le_trans hvy (hnew z hz)

omit [Std.IsPartialOrder α] in
/-- The least of a list. -/
theorem isLeast_min? [Min α] [Std.IsLinearOrder α] [Std.LawfulOrderMin α] (l : List α) :
    IsLeast (· ∈ l) l.min? := by
  cases hmin : l.min? with
  | none =>
    rw [List.min?_eq_none_iff.mp hmin]
    exact fun y => List.not_mem_nil
  | some v => exact List.min?_eq_some_iff.mp hmin

omit [Std.IsPartialOrder α] in
/-- The least of a list and one more value. -/
theorem isLeast_with_min? [Min α] [Std.IsLinearOrder α] [Std.LawfulOrderMin α] (l : List α)
    (o : Option α) : IsLeast (With (· ∈ l) o) (o.toList ++ l).min? := by
  refine (isLeast_min? _).congr fun y => ?_
  rw [With, List.mem_append, Option.mem_toList, or_comm]

end Least
