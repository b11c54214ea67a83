/-!
# Postconditions of computations that can fail

`Ensures err post x` says how the computation `x` can end: an error meets `err`, and a result meets
`post`. A function has one such specification, and the specification of a sequence of calls is put
together from those of its parts.

* `Ensures.bind`: one computation after another;
* `Ensures.mapError`: the errors of a part within those of the whole;
* `Ensures.of_ok`, `Ensures.of_error`: what is known when the end is;
* `exists_of_bind_eq_ok`: what is known of the parts of a sequence when its result is.
-/

namespace Fallible

universe u v

variable {ε ε' : Type v} {α β : Type u} {err : ε → Prop} {post : α → Prop} {post' : β → Prop}
  {x : Except ε α} {f : α → Except ε β} {a : α} {e : ε} {g : ε → ε'}

/-- An error of the computation meets `err`, and a result meets `post`. -/
def Ensures (err : ε → Prop) (post : α → Prop) : Except ε α → Prop
  | .error e => err e
  | .ok a => post a

@[simp] theorem ensures_error : Ensures err post (.error e) ↔ err e := Iff.rfl

@[simp] theorem ensures_ok : Ensures err post (.ok a) ↔ post a := Iff.rfl

section Rules

variable (h : Ensures err post x)

include h

theorem Ensures.of_ok (hx : x = .ok a) : post a := by
  subst hx
  exact h

theorem Ensures.of_error (hx : x = .error e) : err e := by
  subst hx
  exact h

theorem Ensures.mono {post' : α → Prop} (hpost : ∀ a, post a → post' a) : Ensures err post' x := by
  cases x with
  | error e => exact h
  | ok a => exact hpost a h

theorem Ensures.mono_error {err' : ε → Prop} (herr : ∀ e, err e → err' e) :
    Ensures err' post x := by
  cases x with
  | error e => exact herr e h
  | ok a => exact h

/-- **One computation after another.** -/
theorem Ensures.bind (hf : ∀ a, post a → Ensures err post' (f a)) :
    Ensures err post' (x >>= f) := by
  cases x with
  | error e => exact h
  | ok a => exact hf a h

theorem Ensures.mapError {err' : ε' → Prop} (hg : ∀ e, err e → err' (g e)) :
    Ensures err' post (x.mapError g) := by
  cases x with
  | error e => exact hg e h
  | ok a => exact h

end Rules

theorem eq_ok_of_toOption (h : x.toOption = some a) : x = .ok a := by
  cases x with
  | error e => simp [Except.toOption] at h
  | ok b => rw [Option.some.inj h]

theorem eq_ok_of_mapError (h : x.mapError g = .ok a) : x = .ok a := by
  cases x with
  | error e => contradiction
  | ok b => exact congrArg _ (Except.ok.inj h)

/-- What comes of a sequence of two steps that may end in an error. -/
theorem exists_of_bind_eq_ok {b : β} (h : (x >>= f) = .ok b) : ∃ a, x = .ok a ∧ f a = .ok b := by
  cases x with
  | ok a => exact ⟨a, rfl, h⟩
  | error e => contradiction

theorem eq_of_ok_mk {a' : α} {b b' : β} (h : (.ok (a, b) : Except ε (α × β)) = .ok (a', b')) :
    a = a' ∧ b = b' :=
  Prod.mk.inj (Except.ok.inj h)

end Fallible
