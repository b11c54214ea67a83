import Mathlib.Data.List.Induction

/-!
# Maps written by messages

A message `c` writes the value `val c` at `key c`. `replay key val M cs` is the map `M` after the
messages `cs`, the oldest first.

* `replay_apply`: the last message about a key decides;
* `replay_of_const`: a message may come more than once;
* `replay_listing`: a listing of a map, in any order, rebuilds it.
-/

namespace Replay

open Function

variable {K V C : Type*} [DecidableEq K] (key : C → K) (val : C → V)

/-- The map after the messages. -/
def replay (M : K → V) (cs : List C) : K → V := cs.foldl (fun M c => update M (key c) (val c)) M

/-- The last message about a key. -/
def last (cs : List C) (k : K) : Option C := cs.reverse.find? fun c => key c = k

@[simp] theorem replay_nil (M : K → V) : replay key val M [] = M := rfl

@[simp] theorem replay_cons (M : K → V) (c : C) (cs : List C) :
    replay key val M (c :: cs) = replay key val (update M (key c) (val c)) cs := rfl

theorem replay_append (M : K → V) (cs cs' : List C) :
    replay key val M (cs ++ cs') = replay key val (replay key val M cs) cs' :=
  List.foldl_append

theorem last_append (cs cs' : List C) (k : K) :
    last key (cs ++ cs') k = (last key cs' k).or (last key cs k) := by
  rw [last, List.reverse_append, List.find?_append, last, last]

variable {key val} {M : K → V} {cs : List C} {k : K} {c : C}

theorem mem_of_last (h : last key cs k = some c) : c ∈ cs ∧ key c = k :=
  ⟨List.mem_reverse.mp (List.mem_of_find?_eq_some h), by simpa using List.find?_some h⟩

theorem last_eq_none_iff : last key cs k = none ↔ ∀ c ∈ cs, key c ≠ k := by
  simp [last, List.find?_eq_none]

/-- **The last message about a key decides**; without one the map is as before. -/
theorem replay_apply : replay key val M cs k = ((last key cs k).map val).getD (M k) := by
  induction cs using List.reverseRecOn with
  | nil => rfl
  | append_singleton cs c ih =>
    have hlast : last key [c] k = if key c = k then some c else none := by
      by_cases hk : key c = k <;> simp [last, hk]
    rw [replay_append, last_append, hlast]
    by_cases hk : key c = k
    · subst hk
      simp
    · rw [if_neg hk, Option.none_or, replay_cons, replay_nil, update_of_ne (Ne.symm hk), ih]

/-- Copies of one message are as good as one. -/
theorem replay_of_const (hconst : ∀ c' ∈ cs, c' = c) (hne : cs ≠ []) :
    replay key val M cs = update M (key c) (val c) := by
  induction cs generalizing M with
  | nil => exact absurd rfl hne
  | cons c' cs ih =>
    obtain ⟨rfl, hcs⟩ := List.forall_mem_cons.mp hconst
    rw [replay_cons]
    by_cases hnil : cs = []
    · rw [hnil, replay_nil]
    · rw [ih hcs hnil, update_idem]

/-- A listing of a map rebuilds it from the map that has `e` everywhere. -/
theorem replay_listing {e : V} (hval : ∀ c ∈ cs, M (key c) = val c)
    (hall : ∀ k, M k ≠ e → ∃ c ∈ cs, key c = k) : replay key val (fun _ => e) cs = M := by
  funext k
  rw [replay_apply]
  cases hlast : last key cs k with
  | some c =>
    obtain ⟨hmem, rfl⟩ := mem_of_last hlast
    exact (hval c hmem).symm
  | none =>
    by_contra hne
    obtain ⟨c, hc, hk⟩ := hall k (Ne.symm hne)
    exact last_eq_none_iff.mp hlast c hc hk

end Replay
