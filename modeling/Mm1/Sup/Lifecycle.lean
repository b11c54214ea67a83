import Mm1.Sup.Decider

/-!
# The life of a supervisor and of its children

Two small machines say what a decider is for. `SupStatus.Moves` is the life of the supervisor: it
starts its children, keeps them running, restarts them as a group, and stops. `State.Moves` is the
life of one child. Their labels, `Turn` and `Deed`, are what a call of the decider means for the
supervisor and for that child.

`status_moves_of_call` and `state_moves_of_call`: every call of a decider moves the two machines
by the `turn` and the `deed` of the call. What a whole run does is read off the machines, with a
log of the calls (`Decider.Runs`).
-/

namespace Mm1

namespace Decider

open History

/-! ### The supervisor -/

/-- What a call means for the supervisor as a whole. -/
inductive Turn where
  | none
  /-- an exit from an address that belongs to no child: the supervisor is asked to terminate -/
  | requested
  /-- a child could not be started, or the restart intensity is exceeded -/
  | failure
  | quit (normalExit : Bool)
  /-- a crash that restarts the group -/
  | groupRestart
  /-- the action `InitDone` -/
  | initDone
  /-- the action `Noop` -/
  | noop
  /-- the action `Quit` -/
  | quitNow (normalExit : Bool)
  deriving DecidableEq

/-- The calls that begin a shutdown. -/
def Turn.beginsShutdown : Turn → Bool
  | .requested | .failure | .quit _ => true
  | _ => false

/-- The abnormal causes of a shutdown. -/
def Turn.isAbnormal : Turn → Bool
  | .failure | .quit false => true
  | _ => false

/-- The supervisor is to stop, or has stopped. -/
def SupStatus.isDown {σ : Strategy} : SupStatus σ → Bool
  | .stopping _ | .stopped => true
  | _ => false

/-- The life of a supervisor. -/
inductive SupStatus.Moves : {σ : Strategy} → SupStatus σ → Turn → SupStatus σ → Prop
  | none {σ : Strategy} {s : SupStatus σ} : Moves s .none s
  | requested {σ : Strategy} {s : SupStatus σ} : Moves s .requested (.stopping true)
  | failure {σ : Strategy} {s : SupStatus σ} : Moves s .failure (.stopping false)
  | quitUp {σ : Strategy} {s : SupStatus σ} {n : Bool} (hs : s.isDown = false) :
      Moves s (.quit n) (.stopping n)
  | quitStopping {σ : Strategy} {n m : Bool} :
      Moves (.stopping m : SupStatus σ) (.quit n) (.stopping (n && m))
  | quitStopped {σ : Strategy} {n : Bool} : Moves (.stopped : SupStatus σ) (.quit n) .stopped
  | groupRestart {s : SupStatus .allForOne} : Moves s .groupRestart .restarting
  | initDone {σ : Strategy} : Moves (.starting : SupStatus σ) .initDone .running
  | noop : Moves .restarting .noop .running
  | quitNow {σ : Strategy} {n : Bool} : Moves (.stopping n : SupStatus σ) (.quitNow n) .stopped

/-! ### A child -/

/-- What a call means for a child. -/
inductive Deed where
  | none
  | added (childType : ChildType)
  | removed
  | started (address : Address)
  /-- the child ends after it was told to stop -/
  | terminated (address : Address)
  /-- the child ends while it is running, in a way that its type allows -/
  | ended (address : Address)
  /-- the child ends while it is running, in another way -/
  | crashed (address : Address)
  | failed
  /-- the action `Start` for this child -/
  | start
  /-- the action `Stop` for this child -/
  | stop (address : Address)
  /-- the entry of a child that is stopped and removed is dropped -/
  | dropped
  deriving DecidableEq

/-- The child is added. -/
def Deed.isAdded : Deed → Bool
  | .added _ => true
  | _ => false

/-- The child ends while it is running, in a way that its type does not allow. -/
def Deed.isCrashed : Deed → Bool
  | .crashed _ => true
  | _ => false

/-- The child ends while it is running, in a way that its type allows. -/
def Deed.isEnded : Deed → Bool
  | .ended _ => true
  | _ => false

/-- The child ends. -/
def Deed.isExit : Deed → Bool
  | .terminated _ | .ended _ | .crashed _ => true
  | _ => false

/-- The life of a child of a supervisor that does `sup`; `none` is a child that is not there. -/
inductive State.Moves : {σ : Strategy} → SupStatus σ → Option (State σ) → Deed →
    Option (State σ) → Prop
  | none {σ : Strategy} {sup : SupStatus σ} {c : Option (State σ)} : Moves sup c .none c
  | added {σ : Strategy} {sup : SupStatus σ} {t : ChildType} :
      Moves sup .none (.added t) (some ⟨t, .stopped, .running⟩)
  | removed {sup : SupStatus .oneForOne} {s : State .oneForOne} :
      Moves sup (some s) .removed (some { s with target := .removed })
  | started {σ : Strategy} {sup : SupStatus σ} {s : State σ} {a : Address}
      (hs : s.status = .starting) :
      Moves sup (some s) (.started a) (some { s with status := .running a })
  | terminated {σ : Strategy} {sup : SupStatus σ} {s : State σ} {a : Address}
      (hs : s.status = .terminating a) :
      Moves sup (some s) (.terminated a) (some { s with status := .stopped })
  | ended {σ : Strategy} {sup : SupStatus σ} {s : State σ} {a : Address} {n : Bool}
      (hs : s.status = .running a) (hn : s.childType.isAcceptable n = true) :
      Moves sup (some s) (.ended a) (some { s with status := .stopped, target := .stopped })
  | crashed {σ : Strategy} {sup : SupStatus σ} {s : State σ} {a : Address} {n : Bool}
      (hs : s.status = .running a) (hn : s.childType.isAcceptable n = false) :
      Moves sup (some s) (.crashed a) (some { s with status := .stopped })
  | failed {σ : Strategy} {sup : SupStatus σ} {s : State σ} :
      Moves sup (some s) .failed (some s.fail)
  | start {σ : Strategy} {sup : SupStatus σ} {s : State σ} (hup : sup.isUp = true)
      (hs : s.status = .stopped) (ht : s.target = .running) :
      Moves sup (some s) .start (some { s with status := .starting })
  | stop {σ : Strategy} {sup : SupStatus σ} {s : State σ} {a : Address}
      (hs : s.status = .running a) (ht : sup.isUp = true → s.target ≠ .running) :
      Moves sup (some s) (.stop a) (some { s with status := .terminating a })
  | dropped {σ : Strategy} {sup : SupStatus σ} {s : State σ} (hs : s.isGone = true) :
      Moves sup (some s) .dropped .none

/-! ### The calls of a decider -/

/-- A call that was made of a decider. -/
abbrev Event (K : Type*) (σ : Strategy) := History.Event (Decider K σ) (Call K) (Option (Action K))

variable {K : Type*} {σ : Strategy} [DecidableEq K]

/-- What a tolerated crash means for the supervisor. -/
def crashTurn : Strategy → Turn
  | .oneForOne => .none
  | .allForOne => .groupRestart

/-- What a call means for the supervisor as a whole. -/
def turn (e : Event K σ) : Turn :=
  match e.label with
  | .exited a n t =>
    match e.before.exit a n with
    | .unknown => .requested
    | .crashed _ => if e.before.exceeds t then .failure else crashTurn σ
    | .terminated _ | .ended _ => .none
  | .failed k => if e.before.states.lookup k = none then .none else .failure
  | .quit n => .quit n
  | .nextAction _ =>
    match e.output with
    | some .initDone => .initDone
    | some .noop => .noop
    | some (.quit n) => .quitNow n
    | _ => .none
  | .add _ _ | .rm _ | .address _ | .started _ _ => .none

/-- What the cleaning of the list in `next_action` means for a child. -/
def dropDeed (d : Decider K σ) (k : K) : Deed :=
  if (d.states.lookup k).any State.isGone then .dropped else .none

/-- What a call means for the child `k`. -/
def deed (k : K) (e : Event K σ) : Deed :=
  match e.label with
  | .add j t => if j = k ∧ e.before.states.lookup k = none then .added t else .none
  | .rm j =>
    if j = k ∧ σ = .oneForOne ∧ e.before.states.lookup k ≠ none then .removed else .none
  | .started j a =>
    if j = k ∧ (e.before.states.lookup k).map State.status = some .starting then .started a
    else .none
  | .exited a n _ =>
    match e.before.exit a n with
    | .unknown => .none
    | .terminated j => if j = k then .terminated a else .none
    | .ended j => if j = k then .ended a else .none
    | .crashed j => if j = k then .crashed a else .none
  | .failed j => if j = k ∧ e.before.states.lookup k ≠ none then .failed else .none
  | .nextAction _ =>
    match e.output with
    | some (.start j) => if j = k then .start else e.before.dropDeed k
    | some (.stop a (some j)) => if j = k then .stop a else e.before.dropDeed k
    | _ => e.before.dropDeed k
  | .address _ | .quit _ => .none

variable {d d' : Decider K σ} {c : Call K} {out : Option (Action K)} {k : K}

/-- What a call does to the status. -/
theorem status_moves_of_call (h : d.call c = some (d', out)) :
    d.status.Moves (turn ⟨d, c, out⟩) d'.status := by
  cases moves_of_call h with
  | unknown he => simpa only [turn, he] using .requested
  | terminated he | ended he => simpa only [turn, he] using .none
  | exceeded he _ _ _ ht => simpa only [turn, he, ht, if_true] using .failure
  | crashed he _ _ _ ht =>
    simp only [turn, he, ht, Bool.false_eq_true, if_false]
    cases σ with
    | oneForOne => exact .none
    | allForOne => exact .groupRestart
  | failedUnknown hk => simpa only [turn, hk, if_true] using .none
  | failed hk => simpa only [turn, hk, if_false] using .failure
  | @quit _ _ n =>
    obtain ⟨intensity, stats, states, orphans, status⟩ := d
    cases status with
    | stopped => exact .quitStopped
    | stopping m => exact .quitStopping
    | starting | running | restarting => exact .quitUp rfl
  | initDone _ hup => rw [hup]; exact .initDone
  | noop _ hup => rw [hup]; exact .noop
  | quitNow _ hup => rw [hup]; exact .quitNow
  | _ => exact .none

private theorem state_moves_retained {sup : SupStatus σ} :
    State.Moves sup (d.states.lookup k) (d.dropDeed k) (d.retained.states.lookup k) := by
  rw [dropDeed, lookup_retained]
  cases d.states.lookup k with
  | none => exact .none
  | some s =>
    cases hs : s.isGone with
    | true => simpa [hs, Option.filter_some] using .dropped hs
    | false => simpa [hs, Option.filter_some] using .none

section Modify

variable {sup : SupStatus σ} {j : K} {s : State σ} {δ δ' : Deed} {f : State σ → State σ}

/-- A call that changes the child `j`. -/
private theorem state_moves_modify (hj : d.states.lookup j = some s)
    (hm : State.Moves sup (some s) δ (some (f s))) (hself : j = k → δ' = δ)
    (hother : j ≠ k → δ' = .none) :
    State.Moves sup (d.states.lookup k) δ' ((d.states.modify j f).lookup k) := by
  rw [Roster.lookup_modify]
  by_cases hjk : j = k
  · subst hjk
    rw [hself rfl, if_pos rfl, hj]
    exact hm
  · rw [hother hjk, if_neg (Ne.symm hjk)]
    exact .none

/-- An action about the child `j`. -/
private theorem state_moves_act (hj : d.retained.states.lookup j = some s)
    (hm : State.Moves sup (some s) δ (some (f s))) (hself : j = k → δ' = δ)
    (hother : j ≠ k → δ' = d.dropDeed k) :
    State.Moves sup (d.states.lookup k) δ' ((d.retained.states.modify j f).lookup k) := by
  rw [Roster.lookup_modify]
  by_cases hjk : j = k
  · subst hjk
    rw [hself rfl, if_pos rfl, hj, (lookup_of_retained hj).1]
    exact hm
  · rw [hother hjk, if_neg (Ne.symm hjk)]
    exact state_moves_retained

end Modify

/-- What a call does to one child. -/
theorem state_moves_of_call (k : K) (h : d.call c = some (d', out)) :
    State.Moves d.status (d.states.lookup k) (deed k ⟨d, c, out⟩) (d'.states.lookup k) := by
  cases moves_of_call h with
  | @addTwice _ _ j _ hj =>
    have hd : ¬ (j = k ∧ d.states.lookup k = none) := by rintro ⟨rfl, hk⟩; exact hj hk
    simpa only [deed, hd, if_false] using .none
  | @add _ _ j t hj =>
    rw [Roster.lookup_push]
    by_cases hjk : j = k
    · subst hjk
      simpa [deed, hj] using .added
    · simpa [deed, hjk, Ne.symm hjk] using .none
  | @rm d j =>
    cases hj : d.states.lookup j with
    | none =>
      have hd : ¬ (j = k ∧ d.states.lookup k ≠ none) := by rintro ⟨rfl, hk⟩; exact hk hj
      have hsame : (d.states.modify j fun s => { s with target := .removed }).lookup k =
          d.states.lookup k := by
        rw [Roster.lookup_modify]
        split
        case isTrue hjk => rw [hjk, hj, Option.map_none]
        case isFalse => rfl
      simpa [deed, hd, hsame] using .none
    | some s =>
      exact state_moves_modify hj .removed (by rintro rfl; simp [deed, hj])
        (by simp +contextual [deed])
  | rmUnsupported => simpa [deed] using .none
  | address => exact .none
  | @startedUnknown _ _ j _ hj =>
    have hd : ¬ (j = k ∧ (d.states.lookup k).map State.status = some .starting) := by
      rintro ⟨rfl, hk⟩
      simp [hj] at hk
    simpa only [deed, hd, if_false] using .none
  | @orphaned _ _ j _ s hj hs =>
    have hd : ¬ (j = k ∧ (d.states.lookup k).map State.status = some .starting) := by
      rintro ⟨rfl, hk⟩
      simp [hj, hs] at hk
    simpa only [deed, hd, if_false] using .none
  | started _ hj hs =>
    exact state_moves_modify hj (.started hs) (by rintro rfl; simp [deed, hj, hs])
      (by simp +contextual [deed])
  | unknown he => simpa only [deed, he] using .none
  | terminated he hj hs =>
    exact state_moves_modify hj (.terminated hs) (by simp +contextual [deed, he])
      (by simp +contextual [deed, he])
  | ended he hj hs hn =>
    exact state_moves_modify hj (.ended hs hn) (by simp +contextual [deed, he])
      (by simp +contextual [deed, he])
  | exceeded he hj hs hn | crashed he hj hs hn =>
    exact state_moves_modify hj (.crashed hs hn) (by simp +contextual [deed, he])
      (by simp +contextual [deed, he])
  | @failedUnknown _ _ j hj =>
    have hd : ¬ (j = k ∧ d.states.lookup k ≠ none) := by rintro ⟨rfl, hk⟩; exact hk hj
    simpa only [deed, hd, if_false] using .none
  | failed hj =>
    obtain ⟨s, hs⟩ := Option.ne_none_iff_exists'.mp hj
    exact state_moves_modify hs .failed (by rintro rfl; simp [deed, hs])
      (by simp +contextual [deed])
  | quit => exact .none
  | start _ hup hj hs ht =>
    exact state_moves_act hj (.start hup hs ht) (by simp +contextual [deed])
      (by simp +contextual [deed])
  | stop _ hj hs ht =>
    exact state_moves_act hj (.stop hs ht) (by simp +contextual [deed])
      (by simp +contextual [deed])
  | stopOrphan | idle | initDone | noop | quitNow => exact state_moves_retained

/-! ### Runs -/

/-- A decider with the calls that were made of it, the latest first. -/
abbrev Run (K : Type*) (σ : Strategy) := Logged (Decider K σ) (Call K) (Option (Action K))

/-- The runs of a decider: calls in any order, as long as no assertion fails. -/
abbrev Runs (restartIntensity : RestartIntensity) (s : Run K σ) : Prop :=
  Transition.Reaches (step call) (fun _ _ => True) (.start (new restartIntensity)) s

/-- A supervisor with a permanent child, up to the `InitDone`. -/
def upCalls : List (Call ℕ) :=
  [.add 0 .permanent, .nextAction none, .started 0 ⟨1⟩, .nextAction none]

end Decider

end Mm1
