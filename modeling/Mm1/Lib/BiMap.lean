import Mathlib.Data.List.Pairwise

/-!
# Maps in both directions

A map in both directions is a list of pairs, no two of which have the same left or the same right
component. Two pairs that do have one in common *meet*. `insert` removes the pairs that the new one
meets, of which there are at most two, and tells which they were.

* `overwritten_spec`: how many pairs the new one meets, as `insert` tells it;
* `standing`: what is left of a list of pairs when they are inserted one after the other;
* `standing_of_distinct`: nothing is removed if no two of the pairs meet.
-/

namespace BiMap

variable {α β : Type*} {l : List (α × β)}

/-- The pairs have a component in common. -/
def Meets (p q : α × β) : Prop := p.1 = q.1 ∨ p.2 = q.2

instance [DecidableEq α] [DecidableEq β] (p q : α × β) : Decidable (Meets p q) :=
  inferInstanceAs (Decidable (_ ∨ _))

theorem Meets.symm {p q : α × β} (h : Meets p q) : Meets q p := h.imp Eq.symm Eq.symm

instance : Std.Symm fun p q : α × β => ¬ Meets p q := ⟨fun _ _ hnot h => hnot h.symm⟩

/-- No two entries of the list meet. -/
abbrev Distinct (l : List (α × β)) : Prop := l.Pairwise fun p q => ¬ Meets p q

/-- Exactly one pair of the list meets this one. -/
def MeetsOne (l : List (α × β)) (p : α × β) : Prop := ∃! q, q ∈ l ∧ Meets q p

/-- As a relation, the list relates each left component to one right component, and the other way
round. -/
def OneToOne (l : List (α × β)) : Prop := ∀ p ∈ l, ∀ q ∈ l, Meets p q → p = q

theorem Distinct.oneToOne (h : Distinct l) : OneToOne l := by
  intro p hp q hq hmeets
  by_contra hne
  exact List.Pairwise.forall h hp hq hne hmeets

theorem distinct_concat {p : α × β} : Distinct (l ++ [p]) ↔ Distinct l ∧ ∀ q ∈ l, ¬ Meets q p := by
  rw [Distinct, List.pairwise_append]
  simp

end BiMap

/-- A map in both directions. -/
structure BiMap (α β : Type*) where
  pairs : List (α × β)
  distinct : BiMap.Distinct pairs

namespace BiMap

variable {α β : Type*}

/-- What a new pair has removed. -/
inductive Overwritten (α β : Type*) where
  | neither
  /-- a pair with the same left component -/
  | left (p : α × β)
  /-- a pair with the same right component -/
  | right (p : α × β)
  /-- the pair itself -/
  | pair (p : α × β)
  /-- a pair with the same left component, and another one with the same right component -/
  | both (p q : α × β)

/-- The empty map. -/
def empty : BiMap α β := ⟨[], List.Pairwise.nil⟩

variable [DecidableEq α] [DecidableEq β] {m : BiMap α β} {p q : α × β} {l : List (α × β)}

/-- What a new pair removes. -/
def overwritten (m : BiMap α β) (p : α × β) : Overwritten α β :=
  match m.pairs.find? (fun q => q.1 = p.1), m.pairs.find? (fun q => q.2 = p.2) with
  | none, none => .neither
  | some q, none => .left q
  | none, some q => .right q
  | some q, some q' => if q = q' then .pair q else .both q q'

/-- A new pair takes the place of those that it meets. -/
def insert (m : BiMap α β) (p : α × β) : Overwritten α β × BiMap α β :=
  (m.overwritten p,
    { pairs := m.pairs.filter (fun q => ¬ Meets q p) ++ [p]
      distinct := by
        refine distinct_concat.mpr ⟨m.distinct.filter _, fun q hq => ?_⟩
        exact of_decide_eq_true (List.mem_filter.mp hq).2 })

/-- How many pairs the new one meets. -/
def Overwritten.Counts (l : List (α × β)) (p : α × β) : Overwritten α β → Prop
  | .neither => ∀ q ∈ l, ¬ Meets q p
  | .left _ => MeetsOne l p
  | .right _ => MeetsOne l p
  | .pair _ => MeetsOne l p
  | .both q q' => (q ∈ l ∧ Meets q p) ∧ (q' ∈ l ∧ Meets q' p) ∧ q ≠ q'

/-- **What `insert` tells.** -/
theorem overwritten_spec (m : BiMap α β) (p : α × β) :
    (m.overwritten p).Counts m.pairs p := by
  have hfirst : ∀ q, m.pairs.find? (fun q => q.1 = p.1) = some q → q ∈ m.pairs ∧ q.1 = p.1 :=
    fun q h => ⟨List.mem_of_find?_eq_some h, by simpa using List.find?_some h⟩
  have hsecond : ∀ q, m.pairs.find? (fun q => q.2 = p.2) = some q → q ∈ m.pairs ∧ q.2 = p.2 :=
    fun q h => ⟨List.mem_of_find?_eq_some h, by simpa using List.find?_some h⟩
  -- two pairs of the map with one component of `p` each are the same if they have the same one
  have hone := m.distinct.oneToOne
  rw [overwritten]
  split
  case h_1 hl hr =>
    rintro q hq (heq | heq)
    · exact List.find?_eq_none.mp hl q hq (decide_eq_true heq)
    · exact List.find?_eq_none.mp hr q hq (decide_eq_true heq)
  case h_2 q hl hr =>
    obtain ⟨hq, hqp⟩ := hfirst q hl
    refine ⟨q, ⟨hq, .inl hqp⟩, ?_⟩
    rintro q' ⟨hq', heq | heq⟩
    · exact hone q' hq' q hq (.inl (heq.trans hqp.symm))
    · exact absurd (decide_eq_true heq) (List.find?_eq_none.mp hr q' hq')
  case h_3 q hl hr =>
    obtain ⟨hq, hqp⟩ := hsecond q hr
    refine ⟨q, ⟨hq, .inr hqp⟩, ?_⟩
    rintro q' ⟨hq', heq | heq⟩
    · exact absurd (decide_eq_true heq) (List.find?_eq_none.mp hl q' hq')
    · exact hone q' hq' q hq (.inr (heq.trans hqp.symm))
  case h_4 q q' hl hr =>
    obtain ⟨hq, hqp⟩ := hfirst q hl
    obtain ⟨hq', hqp'⟩ := hsecond q' hr
    split
    case isTrue heq =>
      subst heq
      refine ⟨q, ⟨hq, .inl hqp⟩, ?_⟩
      rintro q' ⟨hq', heq | heq⟩
      · exact hone q' hq' q hq (.inl (heq.trans hqp.symm))
      · exact hone q' hq' q hq (.inr (heq.trans hqp'.symm))
    case isFalse hne => exact ⟨⟨hq, .inl hqp⟩, ⟨hq', .inr hqp'⟩, hne⟩

/-! ### What is left of a list -/

/-- The pairs that no later one meets. -/
def standing : List (α × β) → List (α × β)
  | [] => []
  | p :: l => if ∃ q ∈ l, Meets p q then standing l else p :: standing l

/-- A pair comes last: it takes the place of those that it meets. -/
theorem standing_concat :
    standing (l ++ [p]) = (standing l).filter (fun q => ¬ Meets q p) ++ [p] := by
  induction l with
  | nil => rfl
  | cons q l ih =>
    rw [List.cons_append, standing, standing, ih]
    by_cases hlater : ∃ r ∈ l, Meets q r
    · obtain ⟨r, hr, hmeets⟩ := hlater
      rw [if_pos ⟨r, List.mem_append_left _ hr, hmeets⟩, if_pos ⟨r, hr, hmeets⟩]
    · rw [if_neg hlater]
      by_cases hlast : Meets q p
      · rw [if_pos ⟨p, List.mem_append_right _ List.mem_cons_self, hlast⟩,
          List.filter_cons_of_neg (by simpa using hlast)]
      · have hnone : ¬ ∃ r ∈ l ++ [p], Meets q r := by
          rintro ⟨r, hr, hmeets⟩
          rcases List.mem_append.mp hr with hr | hr
          · exact hlater ⟨r, hr, hmeets⟩
          · rw [List.mem_singleton.mp hr] at hmeets
            exact hlast hmeets
        rw [if_neg hnone, List.filter_cons_of_pos (by simpa using hlast), List.cons_append]

theorem standing_subset : standing l ⊆ l := by
  induction l with
  | nil => exact List.Subset.refl _
  | cons p l ih =>
    rw [standing]
    split
    · exact List.subset_cons_of_subset p ih
    · exact List.cons_subset_cons p ih

/-- **Nothing is removed** if no two of the pairs meet. -/
theorem standing_of_distinct (h : Distinct l) : standing l = l := by
  induction l with
  | nil => rfl
  | cons p l ih =>
    obtain ⟨hp, hl⟩ := List.pairwise_cons.mp h
    rw [standing, if_neg, ih hl]
    rintro ⟨q, hq, hmeets⟩
    exact hp q hq hmeets

end BiMap
