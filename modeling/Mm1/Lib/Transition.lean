import Mathlib.Logic.Function.Basic

/-!
# Runs of a transition system

A system is a step function `step : S → L → Option S`; a label it does not accept is `none`.
Runs are taken under a condition `ok : S → L → Prop` on the steps, read in the state before the
step. `fun _ _ => True` gives every run.

* `Reaches step ok s₀ s`: some run from `s₀` whose steps all meet `ok` ends in `s`;
* `Reaches.invariant`: what holds at the start and is kept by each step holds in every state
  reached;
* `exec`: the run of a given list of labels, to be evaluated;
* `exec_refines`: a system each of whose steps is a step of an abstract one runs as that one does.
-/

namespace Transition

variable {S L : Type*} {step : S → L → Option S} {ok ok' : S → L → Prop} {s₀ s s' : S} {ls : List L}

/-- Some run from `s₀` whose steps all meet `ok` ends in the given state. -/
inductive Reaches (step : S → L → Option S) (ok : S → L → Prop) (s₀ : S) : S → Prop
  | refl : Reaches step ok s₀ s₀
  | tail {s s' : S} {l : L} :
      Reaches step ok s₀ s → ok s l → step s l = some s' → Reaches step ok s₀ s'

/-- **The invariant rule.** -/
theorem Reaches.invariant {P : S → Prop} (h : Reaches step ok s₀ s) (h₀ : P s₀)
    (hstep : ∀ {s l s'}, P s → ok s l → step s l = some s' → P s') : P s := by
  induction h with
  | refl => exact h₀
  | tail _ hok hs ih => exact hstep ih hok hs

theorem Reaches.trans (h : Reaches step ok s₀ s) (h' : Reaches step ok s s') :
    Reaches step ok s₀ s' := by
  induction h' with
  | refl => exact h
  | tail _ hl hs ih => exact ih.tail hl hs

/-- The run of a list of labels; `none` if a step is not accepted or does not meet `ok`. -/
def exec (step : S → L → Option S) (ok : S → L → Prop) [∀ s l, Decidable (ok s l)] :
    S → List L → Option S
  | s, [] => some s
  | s, l :: ls => if ok s l then (step s l).bind fun s' => exec step ok s' ls else none

theorem reaches_of_exec [∀ s l, Decidable (ok s l)] (h : exec step ok s ls = some s') :
    Reaches step ok s s' := by
  induction ls generalizing s with
  | nil =>
    obtain rfl : s = s' := Option.some.inj h
    exact .refl
  | cons l ls ih =>
    rw [exec] at h
    split at h
    case isFalse => contradiction
    case isTrue hok =>
      obtain ⟨t, ht, hrest⟩ := Option.bind_eq_some_iff.mp h
      exact (Reaches.refl.tail hok ht).trans (ih hrest)

/-- The state that a list of labels leads to. -/
theorem reaches_get [∀ s l, Decidable (ok s l)] (ls : List L)
    (h : (exec step ok s ls).isSome = true) :
    Reaches step ok s ((exec step ok s ls).get h) :=
  reaches_of_exec (Option.some_get h).symm

/-- **The refinement rule.** -/
theorem exec_refines {A : Type*} [∀ s l, Decidable (ok s l)] {view : S → A} {next : A → L → A}
    (hstep : ∀ {s l s'}, ok s l → step s l = some s' → view s' = next (view s) l)
    (h : exec step ok s ls = some s') : view s' = ls.foldl next (view s) := by
  induction ls generalizing s with
  | nil =>
    obtain rfl : s = s' := Option.some.inj h
    rfl
  | cons l ls ih =>
    rw [exec] at h
    split at h
    case isFalse => contradiction
    case isTrue hok =>
      obtain ⟨t, ht, hrest⟩ := Option.bind_eq_some_iff.mp h
      rw [ih hrest, hstep hok ht, List.foldl_cons]

end Transition
