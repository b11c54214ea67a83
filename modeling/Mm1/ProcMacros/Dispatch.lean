import Mathlib.Data.Nat.Notation
import Mm1.Lib.Fallible

/-!
# `dispatch!`

An actor receives envelopes whose message can be of any type. `dispatch!(match envelope { .. })`
reads like a `match` whose patterns are of different types, and is rewritten to code that compiles:
for each arm the message is cast to the type of the arm, and goes on to the next arm if that fails.
An arm with a guard looks at the message first (`peek`), because a cast takes the message, and the
guard may say no.

The macro sees no types. It takes the type of an arm from the outside of its pattern, copies what is
inside, and tells a unit struct from a variable by the case of its first letter.

* `Pat`, `Arm`: what the macro is given;
* `expandDispatch`: the macro, to `Code`;
* `Code.eval`: what the code does;
* `firstMatch`: what the `match` means, if the messages are the values of one type that has the
  types of messages as its parts;
* `expandDispatch_spec`: which errors the macro returns, and that the code does what the `match`
  means and does not panic.
-/

namespace Mm1

namespace Dispatch

open Fallible List

/-- `syn::Path`: its segments. -/
abbrev Path := List String

/-- `syn::Pat`, as far as the macro looks. `I` is what it copies: what is inside a struct pattern,
and the other patterns. -/
inductive Pat (I : Type) where
  /-- `Pat::Ident` without a subpattern -/
  | ident (byRef mutability : Bool) (ident : String)
  /-- `Pat::Ident` with a subpattern -/
  | identAt (byRef mutability : Bool) (ident : String) (subpat : Pat I)
  | path (path : Path)
  | tupleStruct (path : Path) (elems : I)
  | struct (path : Path) (fields : I)
  | wild
  /-- the kinds of patterns that the macro does not support -/
  | unsupported (pat : I)
  deriving DecidableEq

/-- `syn::Arm`, with guards and bodies that the macro copies. -/
structure Arm (I G B : Type) where
  pat : Pat I
  guard : Option G
  body : B

/-- `syn::Expr` -/
inductive Expr (I G B : Type) where
  | match_ (arms : List (Arm I G B))
  | other

/-- `syn::Error`: what it points at, and its text. -/
structure Error (I : Type) where
  tokens : Option (Pat I)
  message : String
  deriving DecidableEq

/-- The tokens that stand for the type of an arm. They are those of a path, or of an identifier
pattern. -/
structure TypeTokens where
  byRef : Bool
  mutability : Bool
  path : Path
  deriving DecidableEq

/-- `ArmBind` -/
structure ArmBind (I : Type) where
  ty : Option TypeTokens
  bind : Pat I

/-- The code that the macro returns, after `let __expr = ..`. -/
inductive Code (I G B : Type) where
  /-- `__expr.log_unhandled()` -/
  | logUnhandled
  /-- `if __expr.peek::<ty>().is_some_and(|bind| guard) { .. } else { .. }` -/
  | ifPeek (ty : TypeTokens) (bind : Pat I) (guard : G) (yes no : Code I G B)
  /-- `let __expr = __expr.cast::<ty>().expect(..);` -/
  | letCast (ty : TypeTokens) (rest : Code I G B)
  /-- `let (bind, __expr) = __expr.take();` -/
  | letTake (bind : Pat I) (rest : Code I G B)
  /-- `match __expr.cast::<ty>() { Ok(__expr) => .., Err(__expr) => .. }` -/
  | matchCast (ty : TypeTokens) (ok err : Code I G B)
  | body (body : B)

/-! ### The macro -/

variable {I G B : Type}

/-- `looks_like_binding`. The prefix of a raw identifier and leading underscores do not count. -/
def looksLikeBinding (isLowercase : Char → Bool) (ident : String) : Bool :=
  let ident := match ident.toList with
    | 'r' :: '#' :: rest => rest
    | ident => ident
  match ident.dropWhile (· = '_') with
  | [] => true
  | c :: _ => isLowercase c

def bareBinding : String :=
  "`dispatch!` does not support bare binding catch-alls; write `name @ _` instead"

def unsupportedPattern : String := "unsupported pattern in `dispatch!`"

def guardOnCatchAll : String := "`dispatch!` does not support guards on catch-all arms"

/-- `dispatch_arm_bind` -/
def dispatchArmBind (isLowercase : Char → Bool) : Pat I → Except (Error I) (ArmBind I)
  | .identAt _ _ ident .wild => .ok ⟨none, .ident false false ident⟩
  | .identAt _ _ ident subpat => do
    let ⟨ty, bind⟩ ← dispatchArmBind isLowercase subpat
    return ⟨ty, .identAt false false ident bind⟩
  | pat@(.ident byRef mutability ident) =>
    if looksLikeBinding isLowercase ident then .error ⟨some pat, bareBinding⟩
    else .ok ⟨some ⟨byRef, mutability, [ident]⟩, pat⟩
  | .path path => .ok ⟨some ⟨false, false, path⟩, .path path⟩
  | pat@(.tupleStruct path _) => .ok ⟨some ⟨false, false, path⟩, pat⟩
  | pat@(.struct path _) => .ok ⟨some ⟨false, false, path⟩, pat⟩
  | .wild => .ok ⟨none, .wild⟩
  | pat@(.unsupported _) => .error ⟨some pat, unsupportedPattern⟩

/-- `dispatch_arm` -/
def dispatchArm (isLowercase : Char → Bool) (arm : Arm I G B) (orElse : Code I G B) :
    Except (Error I) (Code I G B) := do
  let ⟨ty, bind⟩ ← dispatchArmBind isLowercase arm.pat
  match arm.guard, ty with
  | some _, none => .error ⟨some arm.pat, guardOnCatchAll⟩
  | some guard, some ty =>
    return .ifPeek ty bind guard (.letCast ty (.letTake bind (.body arm.body))) orElse
  | none, some ty => return .matchCast ty (.letTake bind (.body arm.body)) orElse
  | none, none => return .letTake bind (.body arm.body)

/-- `expand_dispatch`. The arms are folded from the last to the first. -/
def expandDispatch (isLowercase : Char → Bool) : Expr I G B → Except (Error I) (Code I G B)
  | .match_ arms =>
    arms.reverse.foldlM (fun orElse arm => dispatchArm isLowercase arm orElse) .logUnhandled
  | .other => .error ⟨none, "Expected a match statement"⟩

/-! ### What the code does -/

/-- `AnyMessage`: a value of a type that is known at run time. -/
structure AnyMessage (T V : Type) where
  tid : T
  value : V
  deriving DecidableEq

/-- The variables that a pattern binds. -/
abbrev Env (T V : Type) := List (String × AnyMessage T V)

/-- What the names of a place in the program stand for. `S` is what guards and bodies can change,
and `R` is what bodies evaluate to. -/
structure Scope (T V S R I G B : Type) where
  /-- the type of messages that a path stands for -/
  type : Path → Option T
  /-- a path stands for a unit struct -/
  unit : Path → Bool
  /-- what the macro copies, as a pattern of Rust -/
  inside : I → AnyMessage T V → Option (Env T V)
  guard : G → Env T V → S → Bool × S
  body : B → Env T V → S → R × S

variable {T V H S R : Type} [DecidableEq T] {arms : List (Arm I G B)}

/-- A value is matched with a pattern. -/
def Pat.matches (sc : Scope T V S R I G B) : Pat I → AnyMessage T V → Option (Env T V)
  | .ident _ _ name, m =>
    if sc.unit [name] then
      if sc.type [name] = some m.tid then some [] else none
    else some [(name, m)]
  | .identAt _ _ name subpat, m => (subpat.matches sc m).map fun env => (name, m) :: env
  | .path p, m => if sc.type p = some m.tid then some [] else none
  | .tupleStruct p i, m | .struct p i, m =>
    if sc.type p = some m.tid then sc.inside i m else none
  | .wild, _ => some []
  | .unsupported i, m => sc.inside i m

/-- `Envelope<M>` -/
structure Envelope (H M : Type) where
  header : H
  message : M

/-- `AnyMessage::peek` -/
def AnyMessage.peek (m : AnyMessage T V) (ty : T) : Option V :=
  if m.tid = ty then some m.value else none

/-- `Envelope::cast` -/
def Envelope.cast (e : Envelope H (AnyMessage T V)) (ty : T) :
    Except (Envelope H (AnyMessage T V)) (Envelope H V) :=
  if e.message.tid = ty then .ok ⟨e.header, e.message.value⟩ else .error e

/-- What `__expr` is. -/
inductive Slot (T V H : Type) where
  | any (e : Envelope H (AnyMessage T V))
  | typed (ty : T) (e : Envelope H V)
  | empty (e : Envelope H Unit)

/-- `Envelope::take` -/
def Slot.take : Slot T V H → Option (AnyMessage T V × Slot T V H)
  | .any e => some (e.message, .empty ⟨e.header, ()⟩)
  | .typed ty e => some (⟨ty, e.message⟩, .empty ⟨e.header, ()⟩)
  | .empty _ => none

/-- How the code ends. -/
inductive Outcome (T H R : Type) where
  | value (r : R)
  /-- the message is logged and dropped -/
  | unhandled (header : H) (tid : T)
  /-- `expect` -/
  | panicked
  deriving DecidableEq

/-- The type that tokens stand for. -/
def Scope.typeOf (sc : Scope T V S R I G B) (ty : TypeTokens) : Option T :=
  if ty.byRef || ty.mutability then none else sc.type ty.path

/-- Run the code; `none` if it does not compile. -/
def Code.eval (sc : Scope T V S R I G B) :
    Code I G B → Slot T V H → Env T V → S → Option (Outcome T H R × S)
  | .logUnhandled, .any e, _, s => some (.unhandled e.header e.message.tid, s)
  | .ifPeek ty bind guard yes no, .any e, env, s => do
    let ty ← sc.typeOf ty
    match e.message.peek ty with
    | none => no.eval sc (.any e) env s
    | some v =>
      let bound ← bind.matches sc ⟨ty, v⟩
      let (ok, s) := sc.guard guard (bound ++ env) s
      if ok then yes.eval sc (.any e) env s else no.eval sc (.any e) env s
  | .letCast ty rest, .any e, env, s => do
    let ty ← sc.typeOf ty
    match e.cast ty with
    | .ok e => rest.eval sc (.typed ty e) env s
    | .error _ => some (.panicked, s)
  | .letTake bind rest, slot, env, s => do
    let (m, slot) ← slot.take
    let bound ← bind.matches sc m
    rest.eval sc slot (bound ++ env) s
  | .matchCast ty ok err, .any e, env, s => do
    let ty ← sc.typeOf ty
    match e.cast ty with
    | .ok e => ok.eval sc (.typed ty e) env s
    | .error e => err.eval sc (.any e) env s
  | .body b, _, env, s =>
    let (r, s) := sc.body b env s
    some (.value r, s)
  | _, _, _, _ => none

/-! ### What the `match` means -/

/-- The first arm whose pattern matches and whose guard is true, with messages of all types as the
values of one. -/
def firstMatch (sc : Scope T V S R I G B) :
    List (Arm I G B) → Envelope H (AnyMessage T V) → S → Outcome T H R × S
  | [], e, s => (.unhandled e.header e.message.tid, s)
  | arm :: arms, e, s =>
    match arm.pat.matches sc e.message with
    | none => firstMatch sc arms e s
    | some env =>
      match arm.guard with
      | none =>
        let (r, s) := sc.body arm.body env s
        (.value r, s)
      | some guard =>
        let (ok, s) := sc.guard guard env s
        if ok then
          let (r, s) := sc.body arm.body env s
          (.value r, s)
        else firstMatch sc arms e s

private theorem firstMatch_ne_panicked {sc : Scope T V S R I G B} {e : Envelope H (AnyMessage T V)}
    {s : S} :
    (firstMatch sc arms e s).1 ≠ .panicked := by
  induction arms generalizing s with
  | nil => simp [firstMatch]
  | cons arm arms ih =>
    rw [firstMatch]
    split
    · exact ih
    · split
      · simp
      · dsimp only
        split
        · simp
        · exact ih

/-- The names in a pattern are what the macro takes them for: a variable before `@` is not a unit
struct, and a name that stands alone is one. -/
def Pat.Named (sc : Scope T V S R I G B) : Pat I → Prop
  | .ident _ _ name => sc.unit [name] = true
  | .identAt _ _ name subpat => sc.unit [name] = false ∧ subpat.Named sc
  | _ => True

/-- The code of the arm compiles: the type is one of messages, and all its values match the pattern
of the `let`. -/
def Arm.Compiles (isLowercase : Char → Bool) (sc : Scope T V S R I G B) (arm : Arm I G B) : Prop :=
  ∀ bind tokens, dispatchArmBind isLowercase arm.pat = .ok ⟨some tokens, bind⟩ →
    ∃ ty, sc.typeOf tokens = some ty ∧ ∀ m, m.tid = ty → (bind.matches sc m).isSome

/-- What is wrong with a pattern. -/
def Pat.error? (isLowercase : Char → Bool) : Pat I → Option (Error I)
  | .identAt _ _ _ subpat => subpat.error? isLowercase
  | .ident byRef mutability name =>
    if looksLikeBinding isLowercase name then
      some ⟨some (.ident byRef mutability name), bareBinding⟩
    else none
  | .unsupported i => some ⟨some (.unsupported i), unsupportedPattern⟩
  | _ => none

def Pat.isCatchAll : Pat I → Bool
  | .identAt _ _ _ subpat => subpat.isCatchAll
  | .wild => true
  | _ => false

/-- What is wrong with an arm. -/
def Arm.error? (isLowercase : Char → Bool) (arm : Arm I G B) : Option (Error I) :=
  (arm.pat.error? isLowercase).or
    (if arm.pat.isCatchAll && arm.guard.isSome then some ⟨some arm.pat, guardOnCatchAll⟩ else none)

/-! ### One arm -/

variable {sc : Scope T V S R I G B} {isLowercase : Char → Bool} {orElse code : Code I G B}
  {pat bind : Pat I} {arm : Arm I G B}

/-- A pattern with `@`. -/
private theorem armBind_identAt {byRef mutability : Bool} {name : String} {subpat bind : Pat I}
    {ty : Option TypeTokens}
    (h : dispatchArmBind isLowercase (.identAt byRef mutability name subpat) = .ok ⟨ty, bind⟩) :
    (subpat = .wild ∧ ty = none ∧ bind = .ident false false name) ∨
      ∃ inner, dispatchArmBind isLowercase subpat = .ok ⟨ty, inner⟩ ∧
        bind = .identAt false false name inner := by
  rw [dispatchArmBind.eq_def] at h
  split at h
  case h_1 heq =>
    cases heq
    cases h
    exact .inl ⟨rfl, rfl, rfl⟩
  case h_2 heq =>
    cases heq
    cases hsub : dispatchArmBind isLowercase subpat with
    | error e =>
      rw [hsub] at h
      contradiction
    | ok ab =>
      rw [hsub] at h
      cases h
      exact .inr ⟨_, rfl, rfl⟩
  all_goals contradiction

/-- **A catch-all.** -/
theorem armBind_none (hnamed : pat.Named sc)
    (h : dispatchArmBind isLowercase pat = .ok ⟨none, bind⟩) (m : AnyMessage T V) :
    ∃ env, pat.matches sc m = some env ∧ bind.matches sc m = some env := by
  induction pat generalizing bind with
  | identAt byRef mutability name subpat ih =>
    obtain ⟨hname, hsub⟩ := hnamed
    rcases armBind_identAt h with ⟨rfl, -, rfl⟩ | ⟨inner, hinner, rfl⟩
    · exact ⟨[(name, m)], rfl, by simp [Pat.matches, hname]⟩
    · obtain ⟨env, hpat, hbind⟩ := ih hsub hinner
      exact ⟨(name, m) :: env, by rw [Pat.matches, hpat]; rfl, by rw [Pat.matches, hbind]; rfl⟩
  | wild =>
    cases h
    exact ⟨[], rfl, rfl⟩
  | ident byRef mutability name =>
    rw [dispatchArmBind] at h
    split at h
    · contradiction
    · cases h
  | path | tupleStruct | struct | unsupported => cases h

/-- **An arm with a type**: the pattern matches the messages of that type, with the variables of the
binding. -/
theorem armBind_some {tokens : TypeTokens} {ty : T} (hnamed : pat.Named sc)
    (h : dispatchArmBind isLowercase pat = .ok ⟨some tokens, bind⟩)
    (hty : sc.typeOf tokens = some ty) (m : AnyMessage T V) :
    (m.tid = ty → bind.matches sc m = pat.matches sc m) ∧
      (m.tid ≠ ty → pat.matches sc m = none) := by
  induction pat generalizing bind with
  | identAt byRef mutability name subpat ih =>
    obtain ⟨hname, hsub⟩ := hnamed
    rcases armBind_identAt h with ⟨-, hnone, -⟩ | ⟨inner, hinner, rfl⟩
    · contradiction
    · obtain ⟨hsame, hother⟩ := ih hsub hinner
      exact ⟨fun hm => by rw [Pat.matches, Pat.matches, hsame hm],
        fun hm => by rw [Pat.matches, hother hm, Option.map_none]⟩
  | ident byRef mutability name =>
    rw [dispatchArmBind] at h
    split at h
    · contradiction
    · cases h
      refine ⟨fun _ => rfl, fun hm => ?_⟩
      obtain ⟨-, hty⟩ := Option.ite_none_left_eq_some.mp hty
      have hname : sc.unit [name] = true := hnamed
      simp [Pat.matches, hname, hty, Ne.symm hm]
  | path p | tupleStruct p i | struct p i =>
    cases h
    refine ⟨fun _ => rfl, fun hm => ?_⟩
    have hty : sc.type p = some ty := hty
    rw [Pat.matches, hty, if_neg fun heq => hm (Option.some.inj heq).symm]
  | wild | unsupported => cases h

/-- **When a pattern is refused**, and whether it is a catch-all. -/
theorem armBind_spec (pat : Pat I) :
    Ensures (fun err => pat.error? isLowercase = some err)
      (fun ab => pat.error? isLowercase = none ∧ ab.ty.isNone = pat.isCatchAll)
      (dispatchArmBind isLowercase pat) := by
  induction pat with
  | identAt byRef mutability name subpat ih =>
    rw [dispatchArmBind.eq_def]
    split
    case h_1 heq =>
      cases heq
      exact ⟨rfl, rfl⟩
    case h_2 heq =>
      cases heq
      exact ih.bind fun ab hab => hab
    all_goals contradiction
  | ident byRef mutability name =>
    rw [dispatchArmBind, Pat.error?]
    split
    · rfl
    · exact ⟨rfl, rfl⟩
  | path | tupleStruct | struct | wild => exact ⟨rfl, rfl⟩
  | unsupported => rfl

/-- **When an arm is refused.** -/
theorem dispatchArm_error (arm : Arm I G B) (orElse : Code I G B) :
    Ensures (fun err => arm.error? isLowercase = some err)
      (fun _ => arm.error? isLowercase = none) (dispatchArm isLowercase arm orElse) := by
  refine ((armBind_spec arm.pat).mono_error fun err herr => ?_).bind fun ab hab => ?_
  · rw [Arm.error?, herr, Option.some_or]
  · obtain ⟨ty, bind⟩ := ab
    obtain ⟨hok, hcatchAll⟩ := hab
    rw [Arm.error?, hok, Option.none_or, ← hcatchAll]
    cases arm.guard with
    | none | some guard => cases ty <;> rfl

/-- The three kinds of code. -/
private theorem dispatchArm_cases (h : dispatchArm isLowercase arm orElse = .ok code) :
    ∃ bind, (dispatchArmBind isLowercase arm.pat = .ok ⟨none, bind⟩ ∧ arm.guard = none ∧
        code = .letTake bind (.body arm.body)) ∨
      ∃ tokens, dispatchArmBind isLowercase arm.pat = .ok ⟨some tokens, bind⟩ ∧
        (arm.guard = none ∧ code = .matchCast tokens (.letTake bind (.body arm.body)) orElse ∨
        ∃ guard, arm.guard = some guard ∧ code = .ifPeek tokens bind guard
          (.letCast tokens (.letTake bind (.body arm.body))) orElse) := by
  cases hab : dispatchArmBind isLowercase arm.pat with
  | error err =>
    rw [dispatchArm, hab] at h
    contradiction
  | ok ab =>
    obtain ⟨ty, bind⟩ := ab
    rw [dispatchArm, hab] at h
    cases hguard : arm.guard with
    | none =>
      rw [hguard] at h
      cases ty with
      | none =>
        cases h
        exact ⟨bind, .inl ⟨rfl, rfl, rfl⟩⟩
      | some tokens =>
        cases h
        exact ⟨bind, .inr ⟨tokens, rfl, .inl ⟨rfl, rfl⟩⟩⟩
    | some guard =>
      rw [hguard] at h
      cases ty with
      | none => contradiction
      | some tokens =>
        cases h
        exact ⟨bind, .inr ⟨tokens, rfl, .inr ⟨guard, rfl, rfl⟩⟩⟩

/-- **The code of an arm** goes before that of the arms after it. -/
theorem eval_dispatchArm (horElse : ∀ (e : Envelope H (AnyMessage T V)) s,
      orElse.eval sc (.any e) [] s = some (firstMatch sc arms e s)) (hnamed : arm.pat.Named sc)
    (hcompiles : arm.Compiles isLowercase sc) (h : dispatchArm isLowercase arm orElse = .ok code)
    (e : Envelope H (AnyMessage T V)) (s : S) :
    code.eval sc (.any e) [] s = some (firstMatch sc (arm :: arms) e s) := by
  obtain ⟨bind, ⟨hab, hguard, rfl⟩ | ⟨tokens, hab, hcode⟩⟩ := dispatchArm_cases h
  · obtain ⟨env, hpat, hbind⟩ := armBind_none hnamed hab e.message
    simp [Code.eval, Slot.take, hbind, firstMatch, hpat, hguard]
  · obtain ⟨ty, hty, hall⟩ := hcompiles bind tokens hab
    obtain ⟨hsame, hother⟩ := armBind_some hnamed hab hty e.message
    by_cases hm : e.message.tid = ty
    · obtain ⟨env, hbind⟩ := Option.isSome_iff_exists.mp (hall e.message hm)
      have hpat := (hsame hm).symm.trans hbind
      subst hm
      rcases hcode with ⟨hguard, rfl⟩ | ⟨guard, hguard, rfl⟩
      · simp [Code.eval, hty, Envelope.cast, Slot.take, hbind, firstMatch, hpat, hguard]
      · -- the cast after the guard is of the message that was looked at
        cases hok : (sc.guard guard env s).1 with
        | true =>
          simp [Code.eval, hty, AnyMessage.peek, Envelope.cast, Slot.take, hbind, firstMatch, hpat,
            hguard, hok]
        | false =>
          simp [Code.eval, hty, AnyMessage.peek, hbind, firstMatch, hpat, hguard, hok, horElse]
    · have hpat := hother hm
      rcases hcode with ⟨-, rfl⟩ | ⟨guard, -, rfl⟩
      · simp [Code.eval, hty, Envelope.cast, hm, firstMatch, hpat, horElse]
      · simp [Code.eval, hty, AnyMessage.peek, hm, firstMatch, hpat, horElse]

/-! ### All arms -/

/-- **`dispatch!` means `match`.** The macro refuses its input because of the last arm that it does
not support. Otherwise, if the names in the patterns are what the macro takes them for and the code
compiles, then the code does what the `match` means: it runs the body of the first arm whose pattern
matches and whose guard is true, with the variables of that pattern and after the guards of the arms
before it, or drops the message. It does not panic. -/
theorem expandDispatch_spec (isLowercase : Char → Bool) (sc : Scope T V S R I G B)
    (arms : List (Arm I G B)) :
    Ensures (fun err => arms.reverse.findSome? (Arm.error? isLowercase) = some err)
      (fun code => (∀ arm ∈ arms, arm.error? isLowercase = none) ∧
        ((∀ arm ∈ arms, arm.pat.Named sc ∧ arm.Compiles isLowercase sc) →
          ∀ (e : Envelope H (AnyMessage T V)) s,
            code.eval sc (.any e) [] s = some (firstMatch sc arms e s) ∧
            (firstMatch sc arms e s).1 ≠ .panicked))
      (expandDispatch isLowercase (.match_ arms)) := by
  rw [expandDispatch, foldlM_reverse]
  induction arms with
  | nil => exact ⟨fun _ h => absurd h not_mem_nil, fun _ e s => ⟨rfl, firstMatch_ne_panicked⟩⟩
  | cons arm arms ih =>
    rw [foldrM_cons, reverse_cons, List.findSome?_append]
    refine (ih.mono_error fun err herr => by rw [herr, Option.some_or]).bind fun orElse hor => ?_
    obtain ⟨hnone, horElse⟩ := hor
    have hfirst : arms.reverse.findSome? (Arm.error? isLowercase) = none := by
      simpa [List.findSome?_eq_none_iff] using hnone
    cases hcode : dispatchArm isLowercase arm orElse with
    | error err =>
      have herr := (dispatchArm_error arm orElse).of_error hcode
      simp [hfirst, herr]
    | ok code =>
      have hok := (dispatchArm_error arm orElse).of_ok hcode
      refine ⟨forall_mem_cons.mpr ⟨hok, hnone⟩, fun hall e s =>
        ⟨?_, firstMatch_ne_panicked⟩⟩
      obtain ⟨⟨hnamed, hcompiles⟩, hrest⟩ := forall_mem_cons.mp hall
      exact eval_dispatchArm (fun e s => (horElse hrest e s).1) hnamed hcompiles hcode e s

/-- A unit struct `Ping`, and a struct `Pong` with a number. Guards compare it with a bound, and it
is counted how often they are asked. -/
def pingPong : Scope Bool ℕ ℕ ℕ String ℕ ℕ where
  type p := if p = ["Ping"] then some false else if p = ["Pong"] then some true else none
  unit p := p = ["Ping"]
  inside name m := some [(name, m)]
  guard bound env s := (env.any fun x => bound < x.2.value, s + 1)
  body b env s := (b + (env.foldr (fun x n => x.2.value + n) 0), s)

/-- `pong @ Pong` with a guard, `Ping` and `other @ _`. -/
def pingPongArms : List (Arm String ℕ ℕ) :=
  [⟨.identAt false false "pong" (.struct ["Pong"] "seq"), some 10, 100⟩,
    ⟨.ident false false "Ping", none, 200⟩, ⟨.identAt false false "other" .wild, none, 300⟩]

/-- A guard says no, and the message goes on to the catch-all. -/
theorem expandDispatch_spec_pingPong :
    ∃ code, expandDispatch Char.isLower (.match_ pingPongArms) = .ok code ∧
      code.eval pingPong (.any ⟨(), ⟨true, 7⟩⟩) [] 0 = some (.value 307, 1) := by
  obtain ⟨code, hcode⟩ : ∃ code, expandDispatch Char.isLower (.match_ pingPongArms) = .ok code :=
    ⟨_, rfl⟩
  have hspec := (expandDispatch_spec (H := Unit) Char.isLower pingPong pingPongArms).of_ok hcode
  have hall :
      ∀ arm ∈ pingPongArms, arm.pat.Named pingPong ∧ arm.Compiles Char.isLower pingPong := by
    simp only [pingPongArms, forall_mem_cons]
    refine ⟨⟨⟨by decide, trivial⟩, fun bind tokens h => ?_⟩, ⟨rfl, fun bind tokens h => ?_⟩,
      ⟨⟨by decide, trivial⟩, fun bind tokens h => ?_⟩, fun _ h => absurd h not_mem_nil⟩
    · cases h
      exact ⟨true, by decide, fun m hm => by simp [Pat.matches, pingPong, hm]⟩
    · cases h
      exact ⟨false, by decide, fun m hm => by simp [Pat.matches, pingPong, hm]⟩
    · cases h
  exact ⟨code, hcode, (hspec.2 hall ⟨(), ⟨true, 7⟩⟩ 0).1⟩

end Dispatch

end Mm1
