import Mathlib.Data.Finset.Erase
import Mathlib.Data.Finset.Insert
import Mm1.Lib.History
import Mm1.Sup.RestartWindow

/-!
# The deciders of `mixed_sup`

A decider keeps the state of every child of a supervisor. It is told what happens (`add`, `rm`,
`started`, `exited`, `failed`, `quit`) and says what is to be done (`next_action`), one action at
a time. `OneForOneDecider` and `AllForOneDecider` are the same program up to three things, and
are one definition here, with the strategy as a parameter:

* only `OneForOne` can remove a child (`Target.removed`, `rm`);
* only `AllForOne` restarts the whole group when a child has crashed (`SupStatus.restarting`,
  `SupStatus.afterCrash`);
* `next_action` handles these two.

A failed assertion and an `unreachable!` are `none`. `moves_of_call` says once what a call can do,
and `call_eq_none_iff`, that the assertion of `started` is the only one that can fail.
-/

namespace Mm1

open Option List

/-- The child types of `mixed_sup`. -/
inductive ChildType where
  | permanent
  | transient
  | temporary
  deriving DecidableEq

/-- Whether a child that has ended is left stopped (`is_acceptable` of both deciders). -/
def ChildType.isAcceptable (childType : ChildType) (normalExit : Bool) : Bool :=
  match childType with
  | .permanent => false
  | .transient => normalExit
  | .temporary => true

/-! ### The state of a decider -/

/-- The two restart strategies. -/
inductive Strategy where
  | oneForOne
  | allForOne
  deriving DecidableEq

/-- `DeciderError`. -/
inductive DeciderError where
  | duplicateKey
  | keyNotFound
  | unsupported
  deriving DecidableEq

namespace Decider

/-- What a child is doing. -/
inductive Status where
  | starting
  | running (address : Address)
  | terminating (address : Address)
  | stopped
  deriving DecidableEq

/-- What a child is meant to do. -/
inductive Target : Strategy → Type
  | running {σ : Strategy} : Target σ
  | stopped {σ : Strategy} : Target σ
  | removed : Target .oneForOne
  deriving DecidableEq

/-- What the supervisor is doing. -/
inductive SupStatus : Strategy → Type
  | starting {σ : Strategy} : SupStatus σ
  | running {σ : Strategy} : SupStatus σ
  | restarting : SupStatus .allForOne
  | stopping {σ : Strategy} (normalExit : Bool) : SupStatus σ
  | stopped {σ : Strategy} : SupStatus σ
  deriving DecidableEq

/-- The state of a child. -/
structure State (σ : Strategy) where
  childType : ChildType
  status : Status
  target : Target σ
  deriving DecidableEq

/-- What `next_action` asks for. -/
inductive Action (K : Type*) where
  | noop
  | initDone
  | start (childId : K)
  | stop (address : Address) (childId : Option K)
  | quit (normalExit : Bool)
  deriving DecidableEq

/-- The address of a child that has one. -/
def Status.address : Status → Option Address
  | .running address | .terminating address => some address
  | .starting | .stopped => none

/-- `matches!(status, Status::Running { .. })` -/
def Status.isRunning : Status → Bool
  | .running _ => true
  | _ => false

/-- Whether an entry is to be dropped from the list: stopped, and to be removed. -/
def State.isGone : {σ : Strategy} → State σ → Bool
  | _, ⟨_, .stopped, .removed⟩ => true
  | _, _ => false

/-- A child whose start has failed, or whose failure to start is reported out of turn. -/
def State.fail {σ : Strategy} (s : State σ) : State σ :=
  match s.status with
  | .starting => { s with status := .stopped }
  | _ => { s with target := .stopped }

end Decider

open Decider

/-- `OneForOneDecider` and `AllForOneDecider`. -/
structure Decider (K : Type*) (σ : Strategy) where
  restartIntensity : RestartIntensity
  restartStats : RestartStats
  states : Roster K (State σ)
  /-- Addresses of children that were reported as started when no start was due. -/
  orphans : Finset Address
  status : SupStatus σ

/-- The decider of the strategy `OneForOne`. -/
abbrev OneForOneDecider (K : Type*) := Decider K .oneForOne

/-- The decider of the strategy `AllForOne`. -/
abbrev AllForOneDecider (K : Type*) := Decider K .allForOne

namespace Decider

variable {K : Type*} {σ : Strategy}

/-- `RestartStrategy::decider` -/
def new (restartIntensity : RestartIntensity) : Decider K σ where
  restartIntensity
  restartStats := []
  states := .empty
  orphans := ∅
  status := .starting

/-! ### The calls -/

/-- Whether a crash that the restart intensity tolerates restarts the group. -/
def SupStatus.afterCrash : {σ : Strategy} → SupStatus σ → SupStatus σ
  | .oneForOne, status => status
  | .allForOne, _ => .restarting

/-- The first child at this address. -/
def childAt (d : Decider K σ) (address : Address) : Option (K × State σ) :=
  d.states.find? fun s => s.status.address = some address

/-- A child with this address is gone. -/
def exited [DecidableEq K] (d : Decider K σ) (reportedAddr : Address) (normalExit : Bool)
    (now : Instant) : Option (Decider K σ) :=
  match d.childAt reportedAddr with
  -- an address of no child: the supervisor itself is asked to terminate
  | none => some { d with status := .stopping true }
  | some (k, s) =>
    match s.status, s.childType.isAcceptable normalExit with
    | .terminating address, _ =>
      if address = reportedAddr then
        some { d with states := d.states.modify k fun s => { s with status := .stopped } }
      else none
    | .running address, true =>
      if address = reportedAddr then
        some { d with
          states := d.states.modify k fun s => { s with status := .stopped, target := .stopped } }
      else none
    | .running address, false =>
      if address = reportedAddr then
        let (restartStats, result) := d.restartIntensity.reportExit d.restartStats now
        some { d with
          restartStats
          status := match result with
            | .error _ => .stopping false
            | .ok _ => d.status.afterCrash
          states := d.states.modify k fun s => { s with status := .stopped } }
      else none
    | _, _ => none

/-- The supervisor is to stop. -/
def quit (d : Decider K σ) (normalExit : Bool) : Decider K σ :=
  { d with
    status := match d.status with
      | .stopped => .stopped
      | .stopping existingNormalExit => .stopping (normalExit && existingNormalExit)
      | .starting | .restarting | .running => .stopping normalExit }

section Keys

variable [DecidableEq K]

/-- The address of a child. -/
def address (d : Decider K σ) (key : K) : Except DeciderError (Option Address) :=
  match d.states.lookup key with
  | some s => .ok s.status.address
  | none => .error .keyNotFound

/-- Add a child, to be started. -/
def add (d : Decider K σ) (key : K) (childType : ChildType) :
    Except DeciderError (Decider K σ) :=
  if h : d.states.lookup key = none then
    .ok { d with states := d.states.push key ⟨childType, .stopped, .running⟩ h }
  else .error .duplicateKey

/-- Remove a child. -/
def rm : {σ : Strategy} → Decider K σ → K → Except DeciderError (Decider K σ)
  | .oneForOne, d, key =>
    .ok { d with states := d.states.modify key fun s => { s with target := .removed } }
  | .allForOne, _, _ => .error .unsupported

/-- A child was started. -/
def started (d : Decider K σ) (key : K) (reportedAddress : Address) : Option (Decider K σ) :=
  match d.childAt reportedAddress with
  | some _ => none
  | none =>
    match d.states.lookup key with
    | none => some d
    | some s =>
      match s.status with
      | .running _ | .terminating _ | .stopped =>
        some { d with orphans := insert reportedAddress d.orphans }
      | .starting =>
        some { d with
          states := d.states.modify key fun s => { s with status := .running reportedAddress } }

/-- A child could not be started. -/
def failed (d : Decider K σ) (key : K) : Decider K σ :=
  match d.states.lookup key with
  | none => d
  | some _ => { d with states := d.states.modify key State.fail, status := .stopping false }

end Keys

/-! ### The next action -/

/-- What there is to do about one child. -/
inductive Visit where
  | skip
  | start
  | stop (address : Address)
  | unreachable
  deriving DecidableEq

/-- Compare what a child is doing with what it is meant to do. -/
def Visit.of : {σ : Strategy} → Status → Target σ → Visit
  -- nothing we can do
  | _, .starting, _ => .skip
  | _, .terminating _, _ => .skip
  -- nothing we should do
  | _, .running _, .running => .skip
  | _, .stopped, .stopped => .skip
  -- should not happen
  | _, .stopped, .removed => .unreachable
  -- do something
  | _, .stopped, .running => .start
  | _, .running address, .stopped => .stop address
  | _, .running address, .removed => .stop address

/-- What there is to do about a child, given what the supervisor is doing. -/
def visit (status : SupStatus σ) (s : State σ) : Visit :=
  match status with
  | .starting | .running => .of s.status s.target
  | .stopping _ | .restarting => .of s.status (.stopped : Target σ)
  | .stopped => .unreachable

/-- The children in the order in which they are visited. -/
def SupStatus.order {α : Type*} (status : SupStatus σ) (states : List α) : List α :=
  match status with
  | .starting | .running => states
  | .stopping _ | .restarting => states.reverse
  | .stopped => []

/-- How the loop over the children ends. -/
inductive Found (K : Type*) where
  | nothing (allChildrenStopped allChildrenStarted : Bool)
  | start (key : K)
  | stop (key : K) (address : Address)
  | unreachable

/-- The loop over the children. -/
def consider (status : SupStatus σ) : List (K × State σ) → Bool → Bool → Found K
  | [], allChildrenStopped, allChildrenStarted => .nothing allChildrenStopped allChildrenStarted
  | (key, s) :: rest, allChildrenStopped, allChildrenStarted =>
    match visit status s with
    | .skip =>
      consider status rest (allChildrenStopped && decide (s.status = .stopped))
        (allChildrenStarted && s.status.isRunning)
    | .start => .start key
    | .stop address => .stop key address
    | .unreachable => .unreachable

/-- Drop the entries of the children that are removed. `AllForOneDecider` has none. -/
def retained (d : Decider K σ) : Decider K σ :=
  { d with states := d.states.retain fun s => !s.isGone }

/-- What `orphans.iter().next()` can be. -/
def IsFirst (first : Option Address) (orphans : Finset Address) : Prop :=
  match first with
  | some address => address ∈ orphans
  | none => orphans = ∅

instance (first : Option Address) (orphans : Finset Address) :
    Decidable (IsFirst first orphans) :=
  match first with
  | some _ => inferInstanceAs (Decidable (_ ∈ _))
  | none => inferInstanceAs (Decidable (_ = _))

/-- What is to be done when there is nothing to do about any child. -/
def settle (d : Decider K σ) (allChildrenStopped allChildrenStarted : Bool) :
    Decider K σ × Option (Action K) :=
  match d.status with
  | .running | .stopped => (d, none)
  | .starting =>
    if allChildrenStarted then ({ d with status := .running }, some .initDone) else (d, none)
  | .restarting =>
    if allChildrenStopped then ({ d with status := .running }, some .noop) else (d, none)
  | .stopping normalExit =>
    if allChildrenStopped then ({ d with status := .stopped }, some (.quit normalExit))
    else (d, none)

/-- Do what the loop has found. -/
def act [DecidableEq K] (d : Decider K σ) : Found K → Option (Decider K σ × Option (Action K))
  | .start key =>
    some ({ d with states := d.states.modify key fun s => { s with status := .starting } },
      some (.start key))
  | .stop key address =>
    some ({ d with
        states := d.states.modify key fun s => { s with status := .terminating address } },
      some (.stop address (some key)))
  | .nothing allChildrenStopped allChildrenStarted =>
    some (d.settle allChildrenStopped allChildrenStarted)
  | .unreachable => none

/-- What is to be done next. The set of orphans is iterated over in an order of its own: `first` is
the one that comes first, and a value that cannot be is refused. -/
def nextAction [DecidableEq K] (d : Decider K σ) (first : Option Address) :
    Option (Decider K σ × Option (Action K)) :=
  let d := d.retained
  if IsFirst first d.orphans then
    match first with
    | some address =>
      some ({ d with orphans := d.orphans.erase address }, some (.stop address none))
    | none => d.act (consider d.status (d.status.order d.states.entries) true true)
  else none

/-- A call of the trait `Decider`. -/
inductive Call (K : Type*) where
  | add (key : K) (childType : ChildType)
  | rm (key : K)
  | address (key : K)
  | started (key : K) (address : Address)
  | exited (address : Address) (normalExit : Bool) (now : Instant)
  | failed (key : K)
  | quit (normalExit : Bool)
  | nextAction (first : Option Address)

/-- Make a call. What it returns is the action of `next_action`; the other calls return none. -/
def call [DecidableEq K] (d : Decider K σ) : Call K → Option (Decider K σ × Option (Action K))
  | .add key childType => some ((d.add key childType).toOption.getD d, none)
  | .rm key => some ((d.rm key).toOption.getD d, none)
  | .address _ => some (d, none)
  | .started key address => (d.started key address).map fun d => (d, none)
  | .exited address normalExit now => (d.exited address normalExit now).map fun d => (d, none)
  | .failed key => some (d.failed key, none)
  | .quit normalExit => some (d.quit normalExit, none)
  | .nextAction first => d.nextAction first

/-! ### What a call can do -/

/-- What an `exited` says. -/
inductive Exit (K : Type*) where
  /-- the address belongs to no child -/
  | unknown
  /-- a child that was told to stop -/
  | terminated (key : K)
  /-- a running child, in a way that its type allows -/
  | ended (key : K)
  /-- a running child, in another way -/
  | crashed (key : K)
  deriving DecidableEq

/-- What an `exited` with this address says. -/
def exit (d : Decider K σ) (address : Address) (normalExit : Bool) : Exit K :=
  match d.childAt address with
  | none => .unknown
  | some (key, s) =>
    if s.status = .running address then
      if s.childType.isAcceptable normalExit then .ended key else .crashed key
    else .terminated key

/-- Whether a crash at this time is one too many. -/
def exceeds (d : Decider K σ) (now : Instant) : Bool :=
  match (d.restartIntensity.reportExit d.restartStats now).2 with
  | .error _ => true
  | .ok _ => false

/-- The supervisor starts its children, or keeps them running. -/
def SupStatus.isUp : SupStatus σ → Bool
  | .starting | .running => true
  | _ => false

variable [DecidableEq K]

/-- All that a call can do. -/
inductive Moves : {σ : Strategy} → Decider K σ → Call K → Decider K σ → Option (Action K) → Prop
  | addTwice {σ : Strategy} {d : Decider K σ} {k : K} {t : ChildType}
      (hk : d.states.lookup k ≠ none) : Moves d (.add k t) d none
  | add {σ : Strategy} {d : Decider K σ} {k : K} {t : ChildType} (hk : d.states.lookup k = none) :
      Moves d (.add k t) { d with states := d.states.push k ⟨t, .stopped, .running⟩ hk } none
  | rm {d : Decider K .oneForOne} {k : K} :
      Moves d (.rm k)
        { d with states := d.states.modify k fun s => { s with target := .removed } } none
  | rmUnsupported {d : Decider K .allForOne} {k : K} : Moves d (.rm k) d none
  | address {σ : Strategy} {d : Decider K σ} {k : K} : Moves d (.address k) d none
  | startedUnknown {σ : Strategy} {d : Decider K σ} {k : K} {a : Address}
      (hk : d.states.lookup k = none) : Moves d (.started k a) d none
  | orphaned {σ : Strategy} {d : Decider K σ} {k : K} {a : Address} {s : State σ}
      (hk : d.states.lookup k = some s) (hs : s.status ≠ .starting) :
      Moves d (.started k a) { d with orphans := insert a d.orphans } none
  | started {σ : Strategy} {d : Decider K σ} {k : K} {a : Address} {s : State σ}
      (ha : d.childAt a = none) (hk : d.states.lookup k = some s) (hs : s.status = .starting) :
      Moves d (.started k a)
        { d with states := d.states.modify k fun s => { s with status := .running a } } none
  | unknown {σ : Strategy} {d : Decider K σ} {a : Address} {n : Bool} {t : Instant}
      (he : d.exit a n = .unknown) :
      Moves d (.exited a n t) { d with status := .stopping true } none
  | terminated {σ : Strategy} {d : Decider K σ} {a : Address} {n : Bool} {t : Instant} {k : K}
      {s : State σ} (he : d.exit a n = .terminated k) (hk : d.states.lookup k = some s)
      (hs : s.status = .terminating a) :
      Moves d (.exited a n t)
        { d with states := d.states.modify k fun s => { s with status := .stopped } } none
  | ended {σ : Strategy} {d : Decider K σ} {a : Address} {n : Bool} {t : Instant} {k : K}
      {s : State σ} (he : d.exit a n = .ended k) (hk : d.states.lookup k = some s)
      (hs : s.status = .running a) (hn : s.childType.isAcceptable n = true) :
      Moves d (.exited a n t)
        { d with
          states := d.states.modify k fun s => { s with status := .stopped, target := .stopped } }
        none
  | exceeded {σ : Strategy} {d : Decider K σ} {a : Address} {n : Bool} {t : Instant} {k : K}
      {s : State σ} (he : d.exit a n = .crashed k) (hk : d.states.lookup k = some s)
      (hs : s.status = .running a) (hn : s.childType.isAcceptable n = false)
      (ht : d.exceeds t = true) {stats : RestartStats} :
      Moves d (.exited a n t)
        { d with
          restartStats := stats
          status := .stopping false
          states := d.states.modify k fun s => { s with status := .stopped } } none
  | crashed {σ : Strategy} {d : Decider K σ} {a : Address} {n : Bool} {t : Instant} {k : K}
      {s : State σ} (he : d.exit a n = .crashed k) (hk : d.states.lookup k = some s)
      (hs : s.status = .running a) (hn : s.childType.isAcceptable n = false)
      (ht : d.exceeds t = false) {stats : RestartStats} :
      Moves d (.exited a n t)
        { d with
          restartStats := stats
          status := d.status.afterCrash
          states := d.states.modify k fun s => { s with status := .stopped } } none
  | failedUnknown {σ : Strategy} {d : Decider K σ} {k : K} (hk : d.states.lookup k = none) :
      Moves d (.failed k) d none
  | failed {σ : Strategy} {d : Decider K σ} {k : K} (hk : d.states.lookup k ≠ none) :
      Moves d (.failed k)
        { d with states := d.states.modify k State.fail, status := .stopping false } none
  | quit {σ : Strategy} {d : Decider K σ} {n : Bool} : Moves d (.quit n) (d.quit n) none
  | stopOrphan {σ : Strategy} {d : Decider K σ} {a : Address} (ha : a ∈ d.orphans) :
      Moves d (.nextAction (some a)) { d.retained with orphans := d.orphans.erase a }
        (some (.stop a none))
  | start {σ : Strategy} {d : Decider K σ} {k : K} {s : State σ} (ho : d.orphans = ∅)
      (hup : d.status.isUp = true) (hk : d.retained.states.lookup k = some s)
      (hs : s.status = .stopped) (ht : s.target = .running) :
      Moves d (.nextAction none)
        { d.retained with
          states := d.retained.states.modify k fun s => { s with status := .starting } }
        (some (.start k))
  | stop {σ : Strategy} {d : Decider K σ} {k : K} {a : Address} {s : State σ} (ho : d.orphans = ∅)
      (hk : d.retained.states.lookup k = some s) (hs : s.status = .running a)
      (ht : d.status.isUp = true → s.target ≠ .running) :
      Moves d (.nextAction none)
        { d.retained with
          states := d.retained.states.modify k fun s => { s with status := .terminating a } }
        (some (.stop a (some k)))
  | idle {σ : Strategy} {d : Decider K σ} (ho : d.orphans = ∅)
      (hv : d.status ≠ .stopped →
        ∀ k s, d.retained.states.lookup k = some s → visit d.status s = .skip)
      (hi : d.status = .starting →
        ∃ k s, d.retained.states.lookup k = some s ∧ s.status.isRunning = false) :
      Moves d (.nextAction none) d.retained none
  | initDone {σ : Strategy} {d : Decider K σ} (ho : d.orphans = ∅) (hup : d.status = .starting)
      (hall : ∀ k s, d.retained.states.lookup k = some s →
        s.status.isRunning = true ∧ s.target = .running) :
      Moves d (.nextAction none) { d.retained with status := .running } (some .initDone)
  | noop {d : Decider K .allForOne} (ho : d.orphans = ∅) (hup : d.status = .restarting)
      (hall : ∀ k s, d.retained.states.lookup k = some s → s.status = .stopped) :
      Moves d (.nextAction none) { d.retained with status := .running } (some .noop)
  | quitNow {σ : Strategy} {d : Decider K σ} {n : Bool} (ho : d.orphans = ∅)
      (hup : d.status = .stopping n)
      (hall : ∀ k s, d.retained.states.lookup k = some s → s.status = .stopped) :
      Moves d (.nextAction none) { d.retained with status := .stopped } (some (.quit n))

variable {d d' : Decider K σ} {a : Address} {k : K} {s : State σ} {n : Bool} {t : Instant}
  {st : Status} {tgt : Target σ} {out : Option (Action K)} {first : Option Address}

private theorem childAt_eq_some (h : d.childAt a = some (k, s)) :
    d.states.lookup k = some s ∧ s.status.address = some a := by
  obtain ⟨hk, ha⟩ := Roster.find?_eq_some h
  exact ⟨hk, of_decide_eq_true ha⟩

private theorem Status.address_eq_some_iff {status : Status} :
    status.address = some a ↔ status = .running a ∨ status = .terminating a := by
  cases status <;> simp [Status.address]

/-- When an address is one of a child. -/
private theorem childAt_ne_none_iff :
    d.childAt a ≠ none ↔
      ∃ k s, d.states.lookup k = some s ∧ (s.status = .running a ∨ s.status = .terminating a) := by
  simp only [childAt, ne_eq, Roster.find?_eq_none_iff, decide_eq_false_iff_not, not_forall, not_not,
    exists_prop, Status.address_eq_some_iff]

omit [DecidableEq K] in
theorem exit_eq_unknown_iff : d.exit a n = .unknown ↔ d.childAt a = none := by
  rw [exit]
  cases d.childAt a with
  | none => simp
  | some e =>
    simp only [reduceCtorEq, iff_false]
    split
    · split <;> simp
    · simp

/-- All that `started` can do. -/
private theorem moves_started (h : d.started k a = some d') : Moves d (.started k a) d' none := by
  rw [Decider.started] at h
  split at h
  case h_1 => contradiction
  case h_2 ha =>
    split at h
    case h_1 hk =>
      obtain rfl := some.inj h
      exact .startedUnknown hk
    case h_2 s hk =>
      by_cases hs : s.status = .starting
      · obtain rfl : _ = d' := by simpa only [hs, Option.some.injEq] using h
        exact .started ha hk hs
      · obtain rfl : { d with orphans := insert a d.orphans } = d' := by
          cases hst : s.status <;> simp_all
        exact .orphaned hk hs

/-- All that `exited` can do. -/
theorem moves_exited (h : d.exited a n t = some d') : Moves d (.exited a n t) d' none := by
  rw [Decider.exited] at h
  split at h
  case h_1 ha =>
    obtain rfl := some.inj h
    exact .unknown (by rw [exit, ha])
  case h_2 k s ha =>
    obtain ⟨hk, hs⟩ := childAt_eq_some ha
    rcases Status.address_eq_some_iff.mp hs with hs | hs
    · cases hn : s.childType.isAcceptable n with
      | true =>
        obtain rfl : _ = d' := by simpa only [hs, hn, if_true, Option.some.injEq] using h
        exact .ended (by simp [exit, ha, hs, hn]) hk hs hn
      | false =>
        have he : d.exit a n = .crashed k := by simp [exit, ha, hs, hn]
        cases hr : (d.restartIntensity.reportExit d.restartStats t).2 with
        | error e =>
          obtain rfl : _ = d' := by simpa only [hs, hn, if_true, Option.some.injEq, hr] using h
          exact .exceeded he hk hs hn (by rw [exceeds, hr])
        | ok u =>
          obtain rfl : _ = d' := by simpa only [hs, hn, if_true, Option.some.injEq, hr] using h
          exact .crashed he hk hs hn (by rw [exceeds, hr])
    · obtain rfl : _ = d' := by simpa only [hs, if_true, Option.some.injEq] using h
      exact .terminated (by simp [exit, ha, hs]) hk hs

/-! ### What the loop finds -/

section Loop

omit [DecidableEq K]

variable {status : SupStatus σ} {l : List (K × State σ)} {b c : Bool}

/-- How the result of the loop is related to the children that it visits. -/
def Found.Of (status : SupStatus σ) (l : List (K × State σ)) : Found K → Prop
  | .start k => ∃ s, (k, s) ∈ l ∧ visit status s = .start
  | .stop k a => ∃ s, (k, s) ∈ l ∧ visit status s = .stop a
  | .unreachable => ∃ e ∈ l, visit status e.2 = .unreachable
  | .nothing _ _ => ∀ e ∈ l, visit status e.2 = .skip

/-- What the loop over the children finds. -/
private theorem consider_of : (consider status l b c).Of status l := by
  fun_induction consider status l b c with
  | case1 b c => exact fun e he => absurd he not_mem_nil
  | case2 k s rest b c hskip ih =>
    revert ih
    generalize consider status rest _ _ = found
    cases found with
    | start j | stop j a => exact fun ⟨s, hs, hv⟩ => ⟨s, mem_cons_of_mem _ hs, hv⟩
    | unreachable => exact fun ⟨e, he, hv⟩ => ⟨e, mem_cons_of_mem _ he, hv⟩
    | nothing b' c' => exact fun h => forall_mem_cons.mpr ⟨hskip, h⟩
  | case3 k s rest b c hv | case4 k s rest b c a hv => exact ⟨s, mem_cons_self, hv⟩
  | case5 k s rest b c hv => exact ⟨(k, s), mem_cons_self, hv⟩

/-- The flags that the loop gathers. -/
theorem consider_eq_of_skip (h : ∀ e ∈ l, visit status e.2 = .skip) :
    consider status l b c =
      .nothing (b && l.all fun e => decide (e.2.status = .stopped))
        (c && l.all fun e => e.2.status.isRunning) := by
  induction l generalizing b c with
  | nil => simp [consider]
  | cons e l ih =>
    obtain ⟨he, hl⟩ := forall_mem_cons.mp h
    simp only [consider, he, ih hl, all_cons, Bool.and_assoc]

private theorem SupStatus.mem_order_iff {α : Type*} {states : List α} {x : α} :
    x ∈ status.order states ↔ status ≠ .stopped ∧ x ∈ states := by
  cases status <;> simp [SupStatus.order]

private theorem Visit.of_eq_start (h : Visit.of st tgt = .start) :
    st = .stopped ∧ tgt = .running := by
  cases st <;> cases tgt <;> simp_all [Visit.of]

private theorem Visit.of_eq_stop (h : Visit.of st tgt = .stop a) :
    st = .running a ∧ tgt ≠ .running := by
  cases st <;> cases tgt <;> simp_all [Visit.of]

private theorem Visit.of_eq_unreachable (h : Visit.of st tgt = .unreachable) (t : ChildType) :
    tgt ≠ .stopped ∧ (⟨t, st, tgt⟩ : State σ).isGone = true := by
  cases st <;> cases tgt <;> simp_all [Visit.of, State.isGone]

theorem Visit.of_eq_skip (h : Visit.of st tgt = .skip) :
    st = .starting ∨ (∃ a, st = .terminating a) ∨ st.isRunning = true ∧ tgt = .running ∨
      st = .stopped ∧ tgt = .stopped := by
  cases st <;> cases tgt <;> simp_all [Visit.of, Status.isRunning]

theorem Visit.of_running (h : st.isRunning = true) : Visit.of st (.running : Target σ) = .skip := by
  cases st <;> simp_all [Visit.of, Status.isRunning]

theorem Visit.of_stopped {tgt : Target .allForOne} (h : tgt ≠ .running) :
    Visit.of .stopped tgt = .skip := by
  cases tgt <;> simp_all [Visit.of]

/-- `AllForOneDecider` does not remove children. -/
theorem State.isGone_allForOne (s : State .allForOne) : s.isGone = false := by
  obtain ⟨t, st, tgt⟩ := s
  cases tgt <;> simp [State.isGone]

/-- Which children are started. -/
private theorem visit_eq_start (h : visit status s = .start) :
    status.isUp = true ∧ s.status = .stopped ∧ s.target = .running := by
  cases status with
  | starting | running => exact ⟨rfl, Visit.of_eq_start h⟩
  | stopping | restarting =>
    obtain ⟨-, ht⟩ := Visit.of_eq_start h
    contradiction
  | stopped => contradiction

/-- Which children are told to stop. -/
private theorem visit_eq_stop (h : visit status s = .stop a) :
    s.status = .running a ∧ (status.isUp = true → s.target ≠ .running) := by
  cases status with
  | starting | running => exact ⟨(Visit.of_eq_stop h).1, fun _ => (Visit.of_eq_stop h).2⟩
  | stopping | restarting => exact ⟨(Visit.of_eq_stop h).1, by simp [SupStatus.isUp]⟩
  | stopped => contradiction

/-- No `unreachable!` is reached. -/
private theorem visit_ne_unreachable (hs : s.isGone = false) (hst : status ≠ .stopped) :
    visit status s ≠ .unreachable := by
  intro h
  cases status with
  | starting | running =>
    obtain ⟨-, hgone⟩ := Visit.of_eq_unreachable h s.childType
    rw [hs] at hgone
    contradiction
  | stopping | restarting => exact (Visit.of_eq_unreachable h s.childType).1 rfl
  | stopped => contradiction

end Loop

theorem lookup_retained :
    d.retained.states.lookup k = (d.states.lookup k).filter fun s => !s.isGone :=
  Roster.lookup_retain

theorem lookup_of_retained (h : d.retained.states.lookup k = some s) :
    d.states.lookup k = some s ∧ s.isGone = false := by
  simpa [lookup_retained, filter_eq_some_iff] using h

theorem mem_order_iff {e : K × State σ} :
    e ∈ d.status.order d.retained.states.entries ↔
      d.status ≠ .stopped ∧ d.retained.states.lookup e.1 = some e.2 := by
  rw [SupStatus.mem_order_iff, Roster.lookup_eq_some_iff]

private theorem all_order_iff {p : State σ → Bool} (hst : d.status ≠ .stopped) :
    ((d.status.order d.retained.states.entries).all fun e => p e.2) = true ↔
      ∀ k s, d.retained.states.lookup k = some s → p s = true := by
  simp only [List.all_eq_true, mem_order_iff, Prod.forall]
  exact ⟨fun h k s hk => h k s ⟨hst, hk⟩, fun h k s hk => h k s hk.2⟩

/-- `next_action` where no child needs anything. -/
private theorem moves_settle (ho : d.orphans = ∅)
    (hv : d.status ≠ .stopped →
      ∀ k s, d.retained.states.lookup k = some s → visit d.status s = .skip) {b c : Bool}
    (hb : d.status ≠ .stopped →
      (b = true ↔ ∀ k s, d.retained.states.lookup k = some s → s.status = .stopped))
    (hc : d.status ≠ .stopped →
      (c = true ↔ ∀ k s, d.retained.states.lookup k = some s → s.status.isRunning = true)) :
    Moves d (.nextAction none) (d.retained.settle b c).1 (d.retained.settle b c).2 := by
  obtain ⟨intensity, stats, states, orphans, status⟩ := d
  cases status with
  | running | stopped => exact .idle ho hv (by simp)
  | starting =>
    cases c with
    | true =>
      refine .initDone ho rfl fun k s hk => ?_
      have hrun := (hc (by simp)).mp rfl k s hk
      rcases Visit.of_eq_skip (hv (by simp) k s hk) with hst | ⟨a, hst⟩ | hboth | ⟨hst, -⟩
      · simp [hst, Status.isRunning] at hrun
      · simp [hst, Status.isRunning] at hrun
      · exact hboth
      · simp [hst, Status.isRunning] at hrun
    | false =>
      refine .idle ho hv fun _ => ?_
      have hnot := mt (hc (by simp)).mpr Bool.false_ne_true
      push Not at hnot
      simpa using hnot
  | restarting =>
    cases b with
    | true => exact .noop ho rfl ((hb (by simp)).mp rfl)
    | false => exact .idle ho hv (by simp)
  | stopping n =>
    cases b with
    | true => exact .quitNow ho rfl ((hb (by simp)).mp rfl)
    | false => exact .idle ho hv (by simp)

/-- The loop over the children of `d`. -/
theorem nextAction_none (ho : d.orphans = ∅) :
    d.nextAction none =
      d.retained.act (consider d.status (d.status.order d.retained.states.entries) true true) :=
  if_pos ho

/-- All that `next_action` can do. -/
theorem moves_nextAction (h : d.nextAction first = some (d', out)) :
    Moves d (.nextAction first) d' out := by
  by_cases hfirst : IsFirst first d.orphans
  case neg => exact absurd (h.symm.trans (if_neg hfirst)) (some_ne_none _)
  cases first with
  | some a =>
    obtain ⟨rfl, rfl⟩ := Prod.mk.inj (some.inj (h.symm.trans (if_pos hfirst)))
    exact .stopOrphan hfirst
  | none =>
    rw [nextAction_none hfirst] at h
    have hfound : (consider d.status (d.status.order d.retained.states.entries) true true).Of
        d.status (d.status.order d.retained.states.entries) := consider_of
    cases hres : consider d.status (d.status.order d.retained.states.entries) true true with
    | unreachable => rw [hres] at h; contradiction
    | start k =>
      rw [hres] at h hfound
      obtain ⟨rfl, rfl⟩ := Prod.mk.inj (some.inj h)
      obtain ⟨s, hmem, hv⟩ := hfound
      obtain ⟨hup, hs, ht⟩ := visit_eq_start hv
      exact .start hfirst hup (mem_order_iff.mp hmem).2 hs ht
    | stop k a =>
      rw [hres] at h hfound
      obtain ⟨rfl, rfl⟩ := Prod.mk.inj (some.inj h)
      obtain ⟨s, hmem, hv⟩ := hfound
      obtain ⟨hs, ht⟩ := visit_eq_stop hv
      exact .stop hfirst (mem_order_iff.mp hmem).2 hs ht
    | nothing b c =>
      rw [hres] at h hfound
      obtain ⟨rfl, rfl⟩ := Prod.mk.inj (some.inj h)
      rw [consider_eq_of_skip hfound, Found.nothing.injEq, Bool.true_and, Bool.true_and] at hres
      obtain ⟨rfl, rfl⟩ := hres
      refine moves_settle hfirst ?_ ?_ ?_
      · exact fun hst k s hk => hfound (k, s) (mem_order_iff.mpr ⟨hst, hk⟩)
      · intro hst
        rw [all_order_iff (p := fun s => decide (s.status = .stopped)) hst]
        simp only [decide_eq_true_eq]
      · exact fun hst => all_order_iff (p := fun s => s.status.isRunning) hst

/-- **What a call can do.** -/
theorem moves_of_call {c : Call K} (h : d.call c = some (d', out)) : Moves d c d' out := by
  cases c with
  | add k t =>
    obtain ⟨rfl, rfl⟩ := Prod.mk.inj (some.inj h)
    by_cases hk : d.states.lookup k = none
    · rw [Decider.add, dif_pos hk]
      exact .add hk
    · rw [Decider.add, dif_neg hk]
      exact .addTwice hk
  | rm k =>
    obtain ⟨rfl, rfl⟩ := Prod.mk.inj (some.inj h)
    cases σ with
    | oneForOne => exact .rm
    | allForOne => exact .rmUnsupported
  | address k =>
    obtain ⟨rfl, rfl⟩ := Prod.mk.inj (some.inj h)
    exact .address
  | started k a =>
    obtain ⟨e, he, h⟩ := map_eq_some_iff.mp h
    obtain ⟨rfl, rfl⟩ := Prod.mk.inj h
    exact moves_started he
  | exited a n t =>
    obtain ⟨e, he, h⟩ := map_eq_some_iff.mp h
    obtain ⟨rfl, rfl⟩ := Prod.mk.inj h
    exact moves_exited he
  | failed k =>
    obtain ⟨rfl, rfl⟩ := Prod.mk.inj (some.inj h)
    rw [Decider.failed]
    split
    case h_1 hk => exact .failedUnknown hk
    case h_2 s hk => exact .failed (by simp [hk])
  | quit n =>
    obtain ⟨rfl, rfl⟩ := Prod.mk.inj (some.inj h)
    exact .quit
  | nextAction first => exact moves_nextAction h

/-- `exited` does not panic. -/
private theorem exited_ne_none : d.exited a n t ≠ none := by
  rw [Decider.exited]
  split
  case h_1 => exact some_ne_none _
  case h_2 k s ha =>
    rcases Status.address_eq_some_iff.mp (childAt_eq_some ha).2 with hs | hs
    · cases hn : s.childType.isAcceptable n <;> simp [hs]
    · simp [hs]

/-- `next_action` does not panic. -/
private theorem nextAction_ne_none (h : IsFirst first d.orphans) : d.nextAction first ≠ none := by
  cases first with
  | some a => exact fun hn => some_ne_none _ ((if_pos h).symm.trans hn)
  | none =>
    rw [nextAction_none h]
    have hfound : (consider d.status (d.status.order d.retained.states.entries) true true).Of
        d.status (d.status.order d.retained.states.entries) := consider_of
    cases hres : consider d.status (d.status.order d.retained.states.entries) true true with
    | unreachable =>
      -- the entries that are stopped and removed are dropped before the loop
      rw [hres] at hfound
      obtain ⟨e, he, hv⟩ := hfound
      obtain ⟨hst, hk⟩ := mem_order_iff.mp he
      exact absurd hv (visit_ne_unreachable (lookup_of_retained hk).2 hst)
    | start k | stop k a | nothing b c => exact some_ne_none _

/-- The assertion of `started` is the only one that can fail: the address is one of a child that is
running or terminating. A call of `next_action` is refused only for an orphan that cannot come
first. -/
theorem call_eq_none_iff {c : Call K} :
    d.call c = none ↔
      (∃ k a, c = .started k a ∧ ∃ j s, d.states.lookup j = some s ∧
        (s.status = .running a ∨ s.status = .terminating a)) ∨
      ∃ first, c = .nextAction first ∧ ¬ IsFirst first d.orphans := by
  simp only [← childAt_ne_none_iff]
  cases c with
  | started k a =>
    cases ha : d.childAt a with
    | some e => simp [call, Decider.started, ha]
    | none =>
      cases hk : d.states.lookup k with
      | none => simp [call, Decider.started, ha, hk]
      | some s => cases hs : s.status <;> simp [call, Decider.started, ha, hk, hs]
  | exited a n t => simp [call, exited_ne_none]
  | nextAction first =>
    by_cases h : IsFirst first d.orphans
    · simp [call, nextAction_ne_none h, h]
    · simp only [call, Call.nextAction.injEq, reduceCtorEq, false_and, exists_false, false_or]
      exact ⟨fun _ => ⟨first, rfl, h⟩, fun _ => if_neg h⟩
  | add k t | rm k | address k | failed k | quit n => simp [call]

end Decider

end Mm1
