import Mm1.Sup.Lifecycle

/-!
# The loop of `mixed_sup`

A turn of the loop asks the decider for one action, performs it, waits for one message and tells
the decider about it. `Phase` is where the loop is, and `MixedSup.step` one half of a turn:
`decide` up to `ctx.recv`, and `receive` from there. What becomes of the forks that start and stop
the children comes back as messages, in any order.

`idle_iff_of_waiting`: a supervisor that waits, while no child is on its way, has nothing to do,
unless the action that it has just performed is `Noop` and a child is meant to run.
`asleep_after_noop` is such a supervisor, after the crash of a child.
-/

namespace Mm1

open Decider

/-- A `ChildSpec`, as far as the decider is told of it. -/
structure ChildSpec where
  childType : ChildType

/-- `MixedSupError` -/
inductive MixedSupError where
  | escalated
  | decider (reason : DeciderError)
  | recv (kind : RecvErrorKind)
  | fork (kind : ForkErrorKind)
  deriving DecidableEq

namespace MixedSup

variable {K : Type*} {σ : Strategy}

/-- Where the loop is. -/
inductive Phase (K : Type*) (σ : Strategy) where
  /-- at the top of the loop -/
  | deciding (decider : Decider K σ)
  /-- in `ctx.recv` -/
  | waiting (decider : Decider K σ)
  /-- in `ctx.quit_ok` or `ctx.quit_err`, which do not return -/
  | quit (result : Except MixedSupError Unit)
  /-- `mixed_sup` has returned an error -/
  | failed (error : MixedSupError)

/-- The messages that the loop knows. -/
inductive Message (K : Type*) where
  | started (childId : K) (address : Address)
  | startFailed (childId : K)
  | stopFailed (address : Address)
  | getChild (childId : K)
  | exited (peer : Address) (normalExit : Bool)
  | unexpected

/-- What comes from outside of the loop. -/
inductive Input (K : Type*) where
  /-- the orphan that the decider comes upon first, and the result of `ctx.fork` if it is called -/
  | decide (first : Option Address) (fork : Except ForkErrorKind Unit)
  | receive (received : Except RecvErrorKind (Message K)) (now : Instant)

variable [DecidableEq K]

/-- `do_init_children` -/
def doInitChildren (d : Decider K σ) : List (K × ChildSpec) → Except MixedSupError (Decider K σ)
  | [] => .ok d
  | (k, spec) :: rest =>
    match d.add k spec.childType with
    | .ok d => doInitChildren d rest
    | .error reason => .error (.decider reason)

/-- Perform an action. The `ChildSpec` of a child is expected to be there. -/
def perform (children : K → Option ChildSpec) (d : Decider K σ)
    (fork : Except ForkErrorKind Unit) : Option (Decider.Action K) → Option (Phase K σ)
  | none | some .noop | some .initDone => some (.waiting d)
  | some (.quit true) => some (.quit (.ok ()))
  | some (.quit false) => some (.quit (.error .escalated))
  | some (.start childId) | some (.stop _ (some childId)) =>
    match children childId, fork with
    | none, _ => none
    | some _, .ok _ => some (.waiting d)
    | some _, .error kind => some (.failed (.fork kind))
  | some (.stop _ none) =>
    match fork with
    | .ok _ => some (.waiting d)
    | .error kind => some (.failed (.fork kind))

/-- Tell the decider about a message. -/
def dispatch (d : Decider K σ) (now : Instant) : Message K → Option (Decider K σ)
  | .started childId address => d.started childId address
  | .startFailed childId => some (d.failed childId)
  | .stopFailed _ => some (d.quit false)
  | .getChild _ | .unexpected => some d
  | .exited peer normalExit => d.exited peer normalExit now

/-- One half of a turn of the loop, with the action that was performed. -/
def step (children : K → Option ChildSpec) :
    Phase K σ → Input K → Option (Phase K σ × Option (Decider.Action K))
  | .deciding d, .decide first fork =>
    match d.nextAction first with
    | none => none
    | some (d, action) => (perform children d fork action).map fun phase => (phase, action)
  | .waiting d, .receive (.ok message) now =>
    (dispatch d now message).map fun d => (.deciding d, none)
  | .waiting _, .receive (.error kind) _ => some (.failed (.recv kind), none)
  | _, _ => none

/-! ### Runs -/

/-- The `children` of the loop. -/
def childrenMap (specs : List (K × ChildSpec)) (k : K) : Option ChildSpec :=
  (specs.find? fun spec => spec.1 = k).map Prod.snd

/-- A place in the loop with the half turns that led there, the latest first. -/
abbrev Run (K : Type*) (σ : Strategy) :=
  History.Logged (Phase K σ) (Input K) (Option (Decider.Action K))

/-- The decider has no orphans when it is asked for an action. -/
def NoOrphans (s : Run K σ) (_ : Input K) : Prop :=
  match s.state with
  | .deciding d => d.orphans = ∅
  | _ => True

instance (s : Run K σ) (l : Input K) : Decidable (NoOrphans s l) :=
  match h : s.state with
  | .deciding d => decidable_of_iff (d.orphans = ∅) (by simp [NoOrphans, h])
  | .waiting _ | .quit _ | .failed _ => .isTrue (by simp [NoOrphans, h])

/-- The runs of `mixed_sup` without orphans. -/
def Runs (restartIntensity : RestartIntensity) (specs : List (K × ChildSpec)) (s : Run K σ) :
    Prop :=
  ∃ d, doInitChildren (new restartIntensity) specs = .ok d ∧
    Transition.Reaches (History.step (step (childrenMap specs))) NoOrphans (.start (.deciding d)) s

variable {intensity : RestartIntensity} {specs : List (K × ChildSpec)} {s : Run K σ}
  {d d' : Decider K σ} {children : K → Option ChildSpec} {out : Option (Decider.Action K)}

omit [DecidableEq K] in
/-- When the supervisor waits. -/
private theorem perform_eq_waiting {fork : Except ForkErrorKind Unit}
    (h : perform children d fork out = some (.waiting d')) :
    d' = d ∧ ∀ n, out ≠ some (.quit n) := by
  unfold perform at h
  split at h
  case h_1 | h_2 | h_3 =>
    obtain rfl : d = d' := by simpa using h
    exact ⟨rfl, by simp⟩
  case h_4 | h_5 => simp at h
  case h_6 | h_7 =>
    -- the `ChildSpec` is there, and `ctx.fork` succeeds
    split at h
    case h_1 => contradiction
    case h_2 =>
      obtain rfl : d = d' := by simpa using h
      exact ⟨rfl, by simp⟩
    case h_3 => simp at h
  case h_8 =>
    split at h
    case h_1 =>
      obtain rfl : d = d' := by simpa using h
      exact ⟨rfl, by simp⟩
    case h_2 => simp at h

/-- The loop waits after it has performed an action. -/
private theorem step_eq_waiting {phase : Phase K σ} {input : Input K}
    (h : step children phase input = some (.waiting d, out)) :
    ∃ b first, phase = .deciding b ∧ b.nextAction first = some (d, out) ∧
      ∀ n, out ≠ some (.quit n) := by
  unfold step at h
  split at h
  case h_1 b first fork =>
    split at h
    · contradiction
    case h_2 b' action hnext =>
      obtain ⟨phase, hperform, heq⟩ := Option.map_eq_some_iff.mp h
      obtain ⟨rfl, rfl⟩ := Prod.mk.inj heq
      obtain ⟨rfl, hquit⟩ := perform_eq_waiting hperform
      exact ⟨b, first, rfl, hnext, hquit⟩
  case h_2 =>
    obtain ⟨e, -, heq⟩ := Option.map_eq_some_iff.mp h
    simp at heq
  case h_3 => simp at h
  case h_4 => contradiction

/-- The last action before the loop waits. -/
private theorem waiting_of_runs (h : Runs intensity specs s) (hw : s.state = .waiting d) :
    ∃ (b : Decider K σ) (first : Option Address) (out : Option (Decider.Action K)),
      b.orphans = ∅ ∧ b.nextAction first = some (d, out) ∧ (∀ n, out ≠ some (.quit n)) ∧
        s.log.head?.map (fun e => e.output) = some out := by
  obtain ⟨d₀, -, hreach⟩ := h
  cases hreach with
  | refl => exact absurd hw (by simp [History.Logged.start])
  | @tail r _ _ _ hok hs =>
    obtain ⟨out, hstep, hlog⟩ := History.step_eq_some hs
    rw [hw] at hstep
    obtain ⟨b, first, hphase, hnext, hquit⟩ := step_eq_waiting hstep
    have ho : b.orphans = ∅ := by simpa [NoOrphans, hphase] using hok
    exact ⟨b, first, out, ho, hnext, hquit, by rw [hlog]; rfl⟩

/-! ### Nothing to do -/

/-- A further call of `next_action` would return nothing. -/
def Idle (d : Decider K σ) : Prop := ∃ d', d.nextAction none = some (d', none)

private theorem idle_retained (h : d.nextAction none = some (d', none)) : Idle d.retained := by
  have hsame : d.retained.retained = d.retained := by
    simp only [retained, Roster.retain_retain]
  refine ⟨d', ?_⟩
  rw [← h, nextAction, nextAction, hsame]

/-- A supervisor that is running is idle just in case there is nothing to do about any child. -/
private theorem idle_iff_of_running (ho : d.orphans = ∅) (hup : d.status = .running) :
    Idle d ↔ ∀ k c, d.retained.states.lookup k = some c →
      visit (.running : SupStatus σ) c = .skip := by
  constructor
  · rintro ⟨d', hnone⟩
    cases moves_nextAction hnone with
    | idle _ hv => simpa [hup] using hv
  · intro hv
    have hskip : ∀ e ∈ d.status.order d.retained.states.entries, visit d.status e.2 = .skip := by
      intro e he
      rw [hup]
      exact hv e.1 e.2 (mem_order_iff.mp he).2
    refine ⟨d.retained, ?_⟩
    have hstatus : d.retained.status = .running := hup
    simp only [nextAction_none ho, consider_eq_of_skip hskip, act, settle, hstatus]

/-- **The waits of `mixed_sup`.** When the loop waits, while no child is starting or terminating, a
further call of `next_action` would return nothing; unless the action just performed is `Noop`, and
a child is meant to run. -/
theorem idle_iff_of_waiting (h : Runs intensity specs s) (hw : s.state = .waiting d)
    (hquiet : ∀ k c, d.states.lookup k = some c →
      c.status ≠ .starting ∧ ∀ a, c.status ≠ .terminating a) :
    Idle d ↔ ¬ (s.log.head?.map (fun e => e.output) = some (some .noop) ∧
      ∃ k c, d.states.lookup k = some c ∧ c.target = .running) := by
  obtain ⟨b, first, out, ho, hnext, hquit, hlast⟩ := waiting_of_runs h hw
  rw [hlast]
  cases moves_nextAction hnext with
  | stopOrphan ha => exact absurd (ho ▸ ha) (Finset.notMem_empty _)
  | quitNow => exact absurd rfl (hquit _)
  | start _ _ hk => exact absurd rfl (hquiet _ _ (Roster.lookup_modify_self hk)).1
  | stop _ hk => exact absurd rfl ((hquiet _ _ (Roster.lookup_modify_self hk)).2 _)
  | idle => simpa using idle_retained hnext
  | initDone _ _ hall =>
    -- every child runs, and is meant to
    have hidle := idle_iff_of_running (d := { b.retained with status := .running }) ho rfl
    refine iff_of_true (hidle.mpr fun k c hk => ?_) (by simp)
    obtain ⟨hrun, ht⟩ := hall k c (lookup_of_retained hk).1
    rw [visit, ht]
    exact Visit.of_running hrun
  | @noop b _ _ hall =>
    -- every child is stopped, and the first one that is meant to run is to be started
    have hidle := idle_iff_of_running (d := { b.retained with status := .running }) ho rfl
    rw [hidle, not_and]
    constructor
    · rintro hskip - ⟨k, c, hk, ht⟩
      have hst := hall k c hk
      have hk' : ({ b.retained with status := .running } :
          AllForOneDecider K).retained.states.lookup k = some c := by
        rw [lookup_retained, hk, Option.filter_some, State.isGone_allForOne]
        rfl
      have hvisit := hskip k c hk'
      simp [visit, hst, ht, Visit.of] at hvisit
    · intro hnone k c hk
      obtain ⟨hk, -⟩ := lookup_of_retained hk
      have hst := hall k c hk
      rw [visit, hst]
      exact Visit.of_stopped fun ht => hnone rfl ⟨k, c, hk, ht⟩

/-- The start of a supervisor with one child, up to the wait after `InitDone`. -/
def upInputs : List (Input ℕ) :=
  [.decide none (.ok ()), .receive (.ok (.started 0 ⟨1⟩)) 0, .decide none (.ok ())]

/-- The only child is up. -/
theorem idle_iff_of_waiting_up :
    ∃ (s : Run ℕ .allForOne) (d : AllForOneDecider ℕ),
      Runs ⟨1, 10⟩ [(0, ⟨.permanent⟩)] s ∧ s.state = .waiting d ∧ Idle d := by
  obtain ⟨s, d, h, hw, hentries, hlast⟩ : ∃ (s : Run ℕ .allForOne) (d : AllForOneDecider ℕ),
      Runs ⟨1, 10⟩ [(0, ⟨.permanent⟩)] s ∧ s.state = .waiting d ∧
        d.states.entries = [(0, ⟨.permanent, .running ⟨1⟩, .running⟩)] ∧
          s.log.head?.map (fun e => e.output) = some (some .initDone) :=
    ⟨_, _, ⟨_, rfl, Transition.reaches_get upInputs rfl⟩, rfl, rfl, rfl⟩
  refine ⟨s, d, h, hw, (idle_iff_of_waiting h hw fun k c hk => ?_).mpr (by simp [hlast])⟩
  obtain ⟨-, rfl⟩ : k = 0 ∧ c = ⟨.permanent, .running ⟨1⟩, .running⟩ := by
    simpa [Roster.lookup_eq_some_iff, hentries] using hk
  exact ⟨by simp, by simp⟩

/-- A supervisor that sleeps while its child is to be restarted: the child has crashed, and the
`Noop` of the restart is followed by `ctx.recv`. -/
theorem asleep_after_noop :
    ∃ (s : Run ℕ .allForOne) (d d' : AllForOneDecider ℕ),
      Runs ⟨1, 10⟩ [(0, ⟨.permanent⟩)] s ∧ s.state = .waiting d ∧
        d.states.entries = [(0, ⟨.permanent, .stopped, .running⟩)] ∧
          d.nextAction none = some (d', some (.start 0)) :=
  ⟨_, _, _, ⟨_, rfl, Transition.reaches_get
    (upInputs ++ [.receive (.ok (.exited ⟨1⟩ false)) 0, .decide none (.ok ())]) rfl⟩, rfl, rfl, rfl⟩

end MixedSup

end Mm1
