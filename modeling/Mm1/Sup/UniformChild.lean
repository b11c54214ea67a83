import Mm1.Sup.Decider

/-!
# The child types of `uniform_sup`

`uniform_sup` has its own implementation of the child types. Each child has its own restart
statistics, and `should_restart` decides what is done about an exit: restart the child, leave it
stopped, or give up. Here the decisions are compared with those of `OneForOneDecider`, which is
told about the same exits, call by call.

* `Verdict.tally`: what both are meant to do, with the restart intensity as it is implemented;
  `childVerdicts_eq_tally` for `OneForOneDecider`, `childVerdicts_permanent` and
  `childVerdicts_temporary` for `uniform_sup`;
* `Verdict.due`: the same by the number of exits within the window. They are the same thing if and
  only if the exits are counted right (`byCount_eq_due_iff`);
* `verdicts_agree_iff`: `Permanent` and `Temporary` children are treated alike. `Transient` ones
  are not: `uniform_sup` never restarts them, and counts the exits that call for no restart.
-/

namespace Mm1

open List

/-- What goes wrong in a child type. -/
inductive ChildTypeError where
  /-- `eyre::format_err!("args gone")` -/
  | argsGone
  | maxRestartIntensityReached
  deriving DecidableEq

/-- `UniformChildType<A, Data = D>`, with runnables in `R`. A call that changes the data returns
it. -/
structure UniformChildType (A R D : Type) where
  newData : A → D
  makeRunnable : (A → R) → D → D × Except ChildTypeError R
  shouldRestart : D → Bool → Instant → D × Except ChildTypeError Bool

/-- `ChildData<A>` -/
structure ChildData (A : Type) where
  args : A
  restarts : RestartStats

namespace UniformChildType

variable {A R : Type}

/-- `Temporary` -/
def temporary : UniformChildType A R (Option A) where
  newData args := some args
  makeRunnable factory data :=
    (none, match data with
      | some args => .ok (factory args)
      | none => .error .argsGone)
  shouldRestart data _ _ := (data, .ok false)

/-- `Restarting<RESTART_ON_NORMAL_EXIT>` -/
def restarting (restartOnNormalExit : Bool) (restartIntensity : RestartIntensity) :
    UniformChildType A R (ChildData A) where
  newData args := ⟨args, restartIntensity.newStats⟩
  makeRunnable factory data := (data, .ok (factory data.args))
  shouldRestart data _normalExit now :=
    let (restarts, result) := restartIntensity.reportExit data.restarts now
    ({ data with restarts }, match result with
      | .error _ => .error .maxRestartIntensityReached
      | .ok _ => .ok restartOnNormalExit)

/-- `Permanent` -/
def permanent (restartIntensity : RestartIntensity) : UniformChildType A R (ChildData A) :=
  restarting true restartIntensity

/-- `Transient` -/
def transient (restartIntensity : RestartIntensity) : UniformChildType A R (ChildData A) :=
  restarting false restartIntensity

end UniformChildType

/-! ### Decisions -/

/-- An exit of a child that was running at this address. -/
structure ExitReport where
  address : Address
  normalExit : Bool
  now : Instant
  deriving DecidableEq

/-- What is done about a child that has ended. -/
inductive Verdict where
  | restart
  | leave
  /-- the supervisor itself ends -/
  | giveUp
  deriving DecidableEq

namespace UniformChildType

variable {A R D : Type}

/-- What a child type decides about each of the exits of a child, up to the end of the
supervisor. -/
def verdicts (c : UniformChildType A R D) : D → List ExitReport → List Verdict
  | _, [] => []
  | data, e :: rest =>
    match c.shouldRestart data e.normalExit e.now with
    | (_, .error _) => [.giveUp]
    | (data, .ok true) => .restart :: c.verdicts data rest
    | (data, .ok false) => .leave :: c.verdicts data rest

/-- The decisions about a child that was started with these arguments. -/
def childVerdicts (c : UniformChildType A R D) (args : A) (exits : List ExitReport) :
    List Verdict :=
  c.verdicts (c.newData args) exits

end UniformChildType

namespace Decider

variable {K : Type*} {σ : Strategy}

/-- The decision that an action of a decider with one child is about. -/
def verdict : Option (Action K) → Verdict
  | some (.start _) => .restart
  | some (.quit _) => .giveUp
  | _ => .leave

variable [DecidableEq K]

/-- Make some calls, with what the last one returns. -/
def calls (d : Decider K σ) (cs : List (Call K)) : Option (Decider K σ × Option (Action K)) :=
  cs.foldlM (fun r c => r.1.call c) (d, none)

/-- What a decider decides about each of the exits of its only child, which is about to be started.
A child that is left stopped is removed and added again. -/
def verdicts (k : K) (childType : ChildType) :
    OneForOneDecider K → List ExitReport → Option (List Verdict)
  | _, [] => some []
  | d, e :: rest =>
    -- the second call returns `InitDone` the first time
    match d.calls [.started k e.address, .nextAction none, .exited e.address e.normalExit e.now,
      .nextAction none] with
    | none => none
    | some (d, action) =>
      match verdict action with
      | .restart => (verdicts k childType d rest).map (.restart :: ·)
      | .giveUp => some [.giveUp]
      | .leave =>
        match d.calls [.rm k, .nextAction none, .add k childType, .nextAction none] with
        | none => none
        | some (d, _) => (verdicts k childType d rest).map (.leave :: ·)

/-- What `OneForOneDecider` decides about each of the exits of its only child. -/
def childVerdicts (restartIntensity : RestartIntensity) (k : K) (childType : ChildType)
    (exits : List ExitReport) : Option (List Verdict) :=
  match (new restartIntensity : OneForOneDecider K).calls [.add k childType, .nextAction none] with
  | none => none
  | some (d, _) => verdicts k childType d exits

end Decider

namespace Verdict

variable (restartIntensity : RestartIntensity) (demands : Bool → Bool)

/-- The decisions when the exits with `demands` call for a restart and are counted. -/
def tally : RestartStats → List ExitReport → List Verdict
  | _, [] => []
  | stats, e :: rest =>
    if demands e.normalExit then
      match restartIntensity.reportExit stats e.now with
      | (_, .error _) => [.giveUp]
      | (stats, .ok _) => .restart :: tally stats rest
    else .leave :: tally stats rest

/-- The decision of a child type that restarts a child on all exits, or on none. -/
def ifRestarts : Bool → Verdict → Verdict
  | false, .restart => .leave
  | _, v => v

/-- The decisions when the exits with `demands` call for a restart, and one is too many when `count`
says so of those there have been. -/
def byCount (count : List Instant → Instant → ℕ) : List Instant → List ExitReport → List Verdict
  | _, [] => []
  | past, e :: rest =>
    if demands e.normalExit then
      if restartIntensity.maxRestarts < count (past ++ [e.now]) e.now then [.giveUp]
      else .restart :: byCount count (past ++ [e.now]) rest
    else .leave :: byCount count past rest

/-- The decisions by the number of exits within the window. -/
def due : List Instant → List ExitReport → List Verdict :=
  byCount restartIntensity demands restartIntensity.inWindow

end Verdict

/-! ### The decider -/

namespace Decider

variable {K : Type*} [DecidableEq K] {intensity : RestartIntensity} {k : K} {t : ChildType}

/-- A decider with one child. -/
def solo (intensity : RestartIntensity) (stats : RestartStats) (k : K) (s : State .oneForOne)
    (status : SupStatus .oneForOne) : OneForOneDecider K where
  restartIntensity := intensity
  restartStats := stats
  states := ⟨[(k, s)], nodup_singleton k⟩
  orphans := ∅
  status

variable {stats : RestartStats} {a : Address} {s : State .oneForOne}
  {status : SupStatus .oneForOne} {n : Bool} {now : Instant}

private theorem modify_solo {f : State .oneForOne → State .oneForOne} :
    (solo intensity stats k s status).states.modify k f =
      (solo intensity stats k (f s) status).states := by
  simp [solo, Roster.modify]

omit [DecidableEq K] in
private theorem childAt_solo (hs : s.status = .running a) :
    (solo intensity stats k s status).childAt a = some (k, s) := by
  simp [solo, childAt, Roster.find?, hs, Status.address]

/-- The child is started. -/
private theorem started_solo :
    (solo intensity stats k ⟨t, .starting, .running⟩ status).call (.started k a) =
      some (solo intensity stats k ⟨t, .running a, .running⟩ status, none) := by
  simp [call, started, solo, childAt, Roster.find?, Roster.lookup, Roster.modify, Status.address]

/-- There is nothing to do about a child that is running. -/
private theorem next_solo_running (intensity : RestartIntensity) (stats : RestartStats) (k : K)
    (t : ChildType) (a : Address) (hup : status.isUp = true) :
    ∃ out, (solo intensity stats k ⟨t, .running a, .running⟩ status).call (.nextAction none) =
      some (solo intensity stats k ⟨t, .running a, .running⟩ .running, out) := by
  cases status with
  | starting | running => exact ⟨_, rfl⟩
  | stopping n | stopped => simp [SupStatus.isUp] at hup

/-- The child ends in a way that its type allows. -/
private theorem exited_solo_ended (hn : t.isAcceptable n = true) :
    (solo intensity stats k ⟨t, .running a, .running⟩ status).call (.exited a n now) =
      some (solo intensity stats k ⟨t, .stopped, .stopped⟩ status, none) := by
  simp only [call, exited, childAt_solo, hn, if_true, modify_solo, Option.map_some]
  rfl

/-- The child ends in another way. -/
private theorem exited_solo_crashed (hn : t.isAcceptable n = false) :
    (solo intensity stats k ⟨t, .running a, .running⟩ status).call (.exited a n now) =
      some (solo intensity (intensity.reportExit stats now).1 k ⟨t, .stopped, .running⟩
        (match (intensity.reportExit stats now).2 with
          | .error _ => .stopping false
          | .ok _ => status), none) := by
  simp only [call, exited, childAt_solo, hn, if_true, modify_solo, Option.map_some]
  rfl

/-- A child that is stopped and meant to run is started. -/
private theorem next_solo_start :
    (solo intensity stats k ⟨t, .stopped, .running⟩ .running).call (.nextAction none) =
      some (solo intensity stats k ⟨t, .starting, .running⟩ .running, some (.start k)) := by
  simp [call, nextAction, IsFirst, retained, Roster.retain, solo, State.isGone, SupStatus.order,
    consider, visit, Visit.of, act, Roster.modify]

/-- **An exit of the child.** -/
theorem calls_exit (hup : status.isUp = true) :
    (solo intensity stats k ⟨t, .starting, .running⟩ status).calls
        [.started k a, .nextAction none, .exited a n now, .nextAction none] =
      if t.isAcceptable n then
        some (solo intensity stats k ⟨t, .stopped, .stopped⟩ .running, none)
      else
        match intensity.reportExit stats now with
        | (stats, .error _) =>
          some (solo intensity stats k ⟨t, .stopped, .running⟩ .stopped, some (.quit false))
        | (stats, .ok _) =>
          some (solo intensity stats k ⟨t, .starting, .running⟩ .running, some (.start k)) := by
  obtain ⟨out, hnext⟩ := next_solo_running intensity stats k t a hup
  simp only [calls, foldlM_cons, foldlM_nil, started_solo, hnext, Option.bind_eq_bind,
    Option.bind_some]
  cases hn : t.isAcceptable n with
  | true =>
    rw [exited_solo_ended hn]
    rfl
  | false =>
    rw [exited_solo_crashed hn]
    rcases intensity.reportExit stats now with ⟨stats', e | u⟩
    · rfl
    · simp only [Option.bind_some, next_solo_start]
      rfl

/-- A child that was left stopped is removed and added again. -/
private theorem calls_readd :
    (solo intensity stats k ⟨t, .stopped, .stopped⟩ .running).calls
        [.rm k, .nextAction none, .add k t, .nextAction none] =
      some (solo intensity stats k ⟨t, .starting, .running⟩ .running, some (.start k)) := by
  simp [calls, call, rm, add, nextAction, IsFirst, retained, Roster.retain, solo, State.isGone,
    SupStatus.order, consider, visit, Visit.of, act, settle, Roster.modify, Roster.push,
    Roster.lookup, Except.toOption]

/-- **The decisions of a decider** about an only child. -/
theorem verdicts_solo {exits : List ExitReport} (hup : status.isUp = true) :
    verdicts k t (solo intensity stats k ⟨t, .starting, .running⟩ status) exits =
      some (Verdict.tally intensity (fun n => !t.isAcceptable n) stats exits) := by
  induction exits generalizing stats status with
  | nil => rfl
  | cons e rest ih =>
    have hrest : ∀ stats, verdicts k t (solo intensity stats k ⟨t, .starting, .running⟩ .running)
        rest = some (Verdict.tally intensity (fun n => !t.isAcceptable n) stats rest) :=
      fun stats => ih rfl
    rw [verdicts, calls_exit hup, Verdict.tally]
    cases hn : t.isAcceptable e.normalExit with
    | true => simp [verdict, calls_readd, hrest]
    | false =>
      rcases intensity.reportExit stats e.now with ⟨stats', err | u⟩
      · simp [verdict]
      · simp [verdict, hrest]

/-- The decisions of the mixed supervisor. -/
private theorem childVerdicts_eq_tally (exits : List ExitReport) :
    childVerdicts intensity k t exits =
      some (Verdict.tally intensity (fun n => !t.isAcceptable n) [] exits) := by
  have hinit : (new intensity : OneForOneDecider K).calls [.add k t, .nextAction none] =
      some (solo intensity [] k ⟨t, .starting, .running⟩ .starting, some (.start k)) := by
    simp [calls, call, add, new, nextAction, IsFirst, retained, Roster.retain, Roster.empty, solo,
      State.isGone, SupStatus.order, consider, visit, Visit.of, act, Roster.modify, Roster.push,
      Roster.lookup, Except.toOption]
  rw [childVerdicts, hinit]
  exact verdicts_solo rfl

end Decider

/-! ### The uniform child types -/

namespace UniformChildType

variable {A R : Type} {intensity : RestartIntensity}

theorem shouldRestart_restarting (b n : Bool) (data : ChildData A) (now : Instant) :
    (restarting b intensity : UniformChildType A R _).shouldRestart data n now =
      ({ data with restarts := (intensity.reportExit data.restarts now).1 },
        match (intensity.reportExit data.restarts now).2 with
        | .error _ => .error .maxRestartIntensityReached
        | .ok _ => .ok b) := rfl

/-- The decisions about a child that is restarted on all exits or on none: every exit counts. -/
private theorem verdicts_restarting (b : Bool) (data : ChildData A) (exits : List ExitReport) :
    (restarting b intensity : UniformChildType A R _).verdicts data exits =
      (Verdict.tally intensity (fun _ => true) data.restarts exits).map (Verdict.ifRestarts b) := by
  induction exits generalizing data with
  | nil => rfl
  | cons e rest ih =>
    rw [verdicts, shouldRestart_restarting, Verdict.tally, if_pos rfl]
    rcases intensity.reportExit data.restarts e.now with ⟨stats, err | u⟩
    · cases b <;> rfl
    · cases b <;> simp only [ih, map_cons] <;> rfl

private theorem childVerdicts_permanent (args : A) (exits : List ExitReport) :
    (permanent intensity : UniformChildType A R _).childVerdicts args exits =
      Verdict.tally intensity (fun _ => true) [] exits := by
  refine (verdicts_restarting true _ exits).trans ?_
  exact (map_congr_left fun v _ => by cases v <;> rfl).trans (map_id _)

private theorem childVerdicts_temporary (args : A) (exits : List ExitReport) :
    (temporary : UniformChildType A R _).childVerdicts args exits =
      Verdict.tally intensity (fun _ => false) [] exits := by
  rw [childVerdicts]
  induction exits with
  | nil => rfl
  | cons e rest ih =>
    rw [verdicts, Verdict.tally, if_neg (by simp), ← ih]
    rfl

end UniformChildType

/-! ### The window -/

namespace Verdict

variable {intensity : RestartIntensity} {demands : Bool → Bool} {stats : RestartStats}
  {past : List Instant} {now : Instant} {exits : List ExitReport}

/-- **The count of the implementation**: the exits within the window that have not been dropped. -/
theorem tally_eq_byCount (h : (past ++ exits.map (·.now)).Pairwise (· ≤ ·)) :
    tally intensity demands (intensity.reports past) exits =
      byCount intensity demands intensity.keptInWindow past exits := by
  induction exits generalizing past with
  | nil => rfl
  | cons e rest ih =>
    rw [map_cons, append_cons] at h
    have hcount : (intensity.reportExit (intensity.reports past) e.now).2 = .error {} ↔ _ :=
      RestartIntensity.reportExit_eq_error_iff (h.sublist (sublist_append_left _ _))
    have hstats : (intensity.reportExit (intensity.reports past) e.now).1 =
        intensity.reports (past ++ [e.now]) := by
      rw [RestartIntensity.reports, RestartIntensity.reports, foldl_append]
      rfl
    rw [tally, byCount]
    cases demands e.normalExit with
    | false =>
      rw [if_neg Bool.false_ne_true, if_neg Bool.false_ne_true, ih (h.sublist ?_)]
      exact (sublist_append_left _ _).append_right _
    | true =>
      rw [if_pos rfl, if_pos rfl]
      rcases hr : intensity.reportExit (intensity.reports past) e.now with ⟨stats, err | u⟩
      · rw [hr] at hcount
        rw [if_pos (hcount.mp rfl)]
      · rw [hr] at hcount hstats
        rw [if_neg fun hlt => by simpa using hcount.mpr hlt, ← ih h, ← hstats]

/-- **The decisions are those that are due** if and only if the exits that count are counted
right. -/
theorem byCount_eq_due_iff (demands : Bool → Bool) :
    byCount intensity demands intensity.keptInWindow past exits =
        due intensity demands past exits ↔
      intensity.CountsRight past ((exits.filter (demands ·.normalExit)).map (·.now)) := by
  induction exits generalizing past with
  | nil => exact iff_of_true rfl trivial
  | cons e rest ih =>
    rw [due, byCount, byCount, ← due, filter_cons]
    cases demands e.normalExit with
    | false => simp only [Bool.false_eq_true, if_false, List.cons.injEq, true_and, ih]
    | true =>
      simp only [if_true, map_cons, RestartIntensity.CountsRight]
      have hle : intensity.keptInWindow _ e.now ≤ intensity.inWindow _ e.now :=
        RestartIntensity.keptInWindow_le (past ++ [e.now]) e.now
      by_cases hkept : intensity.maxRestarts < intensity.keptInWindow (past ++ [e.now]) e.now
      · rw [if_pos hkept, if_pos (hkept.trans_le hle)]
        exact iff_of_true rfl (.inl hkept)
      · rw [if_neg hkept, or_iff_right hkept, ← not_lt]
        by_cases hall : intensity.maxRestarts < intensity.inWindow (past ++ [e.now]) e.now
        · simp [hall]
        · simp [hall, ih]

/-! ### Transient children -/

private theorem reportExit_of_maxRestarts_eq_zero (stats : RestartStats) (now : Instant)
    (h : intensity.maxRestarts = 0) :
    (intensity.reportExit stats now).2 = .error {} := by
  simp [RestartIntensity.reportExit, h]

private theorem reportExit_nil (h : intensity.maxRestarts ≠ 0) :
    intensity.reportExit [] now = ([now], .ok ()) := by
  simpa [RestartIntensity.reportExit] using h

/-- No exit is tolerated. -/
private theorem alike_iff_of_maxRestarts_eq_zero (h : intensity.maxRestarts = 0) :
    tally intensity (fun n => !n) [] exits =
        (tally intensity (fun _ => true) stats exits).map (ifRestarts false) ↔
      ∀ e ∈ exits.head?, e.normalExit = false := by
  cases exits with
  | nil => simp [tally]
  | cons e rest =>
    have hu := reportExit_of_maxRestarts_eq_zero stats e.now h
    have hm := reportExit_of_maxRestarts_eq_zero [] e.now h
    rcases hr : intensity.reportExit stats e.now with ⟨stats', err | u⟩
    · cases hn : e.normalExit with
      | true => simp [tally, hn, hr, ifRestarts]
      | false =>
        rcases hr' : intensity.reportExit [] e.now with ⟨stats'', err' | u'⟩
        · simp [tally, hn, hr, hr', ifRestarts]
        · simp [hr'] at hm
    · simp [hr] at hu

/-- Some exits are tolerated: a restart shows the difference. -/
private theorem alike_iff_of_maxRestarts_ne_zero (h : intensity.maxRestarts ≠ 0) :
    tally intensity (fun n => !n) [] exits =
        (byCount intensity (fun _ => true) intensity.keptInWindow past exits).map
          (ifRestarts false) ↔
      (∀ e ∈ exits, e.normalExit = true) ∧ intensity.Tolerates past (exits.map (·.now)) := by
  induction exits generalizing past with
  | nil => simp [tally, byCount, RestartIntensity.Tolerates]
  | cons e rest ih =>
    rw [map_cons, RestartIntensity.Tolerates, ← not_lt, byCount, if_pos rfl]
    by_cases hmany : intensity.maxRestarts < intensity.keptInWindow (past ++ [e.now]) e.now
    · cases hn : e.normalExit with
      | true => simp [tally, hn, hmany, ifRestarts]
      | false => simp [tally, hn, hmany, reportExit_nil h, ifRestarts]
    · cases hn : e.normalExit with
      | true => simp [tally, hn, hmany, ifRestarts, ih]
      | false => simp [tally, hn, hmany, reportExit_nil h, ifRestarts]

end Verdict

/-- **The condition** for transient children: no exit is tolerated and the first one is abnormal,
so that both supervisors give up, or all exits are normal and all of them would be tolerated if
they were counted. -/
def TransientAlike (intensity : RestartIntensity) (exits : List ExitReport) : Prop :=
  if intensity.maxRestarts = 0 then ∀ e ∈ exits.head?, e.normalExit = false
  else (∀ e ∈ exits, e.normalExit = true) ∧ intensity.Tolerates [] (exits.map (·.now))

section Agreement

open UniformChildType

/-- The decisions of `uniform_sup` about the exits of a child of this type. -/
def uniformVerdicts (R : Type) {A : Type} (intensity : RestartIntensity) (args : A)
    (exits : List ExitReport) : ChildType → List Verdict
  | .permanent => (permanent intensity : UniformChildType A R _).childVerdicts args exits
  | .transient => (transient intensity : UniformChildType A R _).childVerdicts args exits
  | .temporary => (temporary : UniformChildType A R _).childVerdicts args exits

/-- The times of the exits that a child type does not accept. -/
def countedExits (t : ChildType) (exits : List ExitReport) : List Instant :=
  (exits.filter fun e => !t.isAcceptable e.normalExit).map (·.now)

/-- **The decisions of both supervisors.** For every restart intensity, every child type and every
sequence of exits of a child, `uniform_sup` and `OneForOneDecider` decide the same, if and only if
the child is permanent or temporary or the exits are `TransientAlike`. Both restart the child after
the exits that its type does not accept, leave it stopped after the others, which do not count, and
give up when the exits that count are more than `max_restarts` within the window, if and only if
moreover these exits are counted right. -/
theorem verdicts_agree_iff {K A R : Type} [DecidableEq K] (intensity : RestartIntensity) (k : K)
    (args : A) (exits : List ExitReport) (hmono : exits.Pairwise fun e e' => e.now ≤ e'.now)
    (t : ChildType) :
    (Decider.childVerdicts intensity k t exits = some (uniformVerdicts R intensity args exits t) ↔
      (t = .transient → TransientAlike intensity exits)) ∧
    ((Decider.childVerdicts intensity k t exits = some (uniformVerdicts R intensity args exits t) ∧
      uniformVerdicts R intensity args exits t =
        Verdict.due intensity (fun n => !t.isAcceptable n) [] exits) ↔
      (t = .transient → TransientAlike intensity exits) ∧
        intensity.CountsRight [] (countedExits t exits)) := by
  have htimes : (([] : List Instant) ++ exits.map ExitReport.now).Pairwise (· ≤ ·) :=
    pairwise_map.mpr hmono
  have hagree : Decider.childVerdicts intensity k t exits =
      some (uniformVerdicts R intensity args exits t) ↔
        (t = .transient → TransientAlike intensity exits) := by
    rw [Decider.childVerdicts_eq_tally, Option.some.injEq]
    cases t with
    | permanent => exact iff_of_true (childVerdicts_permanent args exits).symm ChildType.noConfusion
    | temporary => exact iff_of_true (childVerdicts_temporary args exits).symm ChildType.noConfusion
    | transient =>
      have huniform : uniformVerdicts R intensity args exits .transient =
          (Verdict.tally intensity (fun _ => true) [] exits).map (Verdict.ifRestarts false) :=
        verdicts_restarting false _ exits
      rw [huniform, forall_prop_of_true rfl, TransientAlike]
      split
      case isTrue h => exact Verdict.alike_iff_of_maxRestarts_eq_zero h
      case isFalse h =>
        rw [← Verdict.alike_iff_of_maxRestarts_ne_zero h, ← Verdict.tally_eq_byCount htimes]
        rfl
  have hdue : intensity.CountsRight [] (countedExits t exits) ↔
      Verdict.tally intensity (fun n => !t.isAcceptable n) [] exits =
        Verdict.due intensity (fun n => !t.isAcceptable n) [] exits := by
    rw [countedExits, ← Verdict.byCount_eq_due_iff (fun n => !t.isAcceptable n),
      ← Verdict.tally_eq_byCount htimes]
    rfl
  refine ⟨hagree, ?_⟩
  rw [← hagree, hdue]
  refine and_congr_right fun heq => ?_
  rw [Decider.childVerdicts_eq_tally, Option.some.injEq] at heq
  rw [heq]

/-- A permanent child that ends too often. The window of its first exit begins before time does. -/
theorem verdicts_agree_iff_permanent :
    Decider.childVerdicts ⟨1, 10⟩ () .permanent
        [⟨⟨1⟩, true, 5⟩, ⟨⟨2⟩, false, 25⟩, ⟨⟨3⟩, true, 30⟩] =
      some [.restart, .restart, .giveUp] := by
  obtain ⟨hagree, hdue⟩ := (verdicts_agree_iff (R := Unit) ⟨1, 10⟩ () ()
    [⟨⟨1⟩, true, 5⟩, ⟨⟨2⟩, false, 25⟩, ⟨⟨3⟩, true, 30⟩] (by decide) .permanent).2.mpr
      ⟨ChildType.noConfusion, by decide⟩
  rw [hagree, hdue]
  decide

/-- **A transient child that has failed** is restarted by `OneForOneDecider`, and is left stopped by
`uniform_sup`. -/
theorem transient_not_restarted :
    Decider.childVerdicts ⟨1, 10⟩ () .transient [⟨⟨1⟩, false, 20⟩] = some [.restart] ∧
      (transient ⟨1, 10⟩ : UniformChildType Unit Unit _).childVerdicts () [⟨⟨1⟩, false, 20⟩] =
        [.leave] := by
  decide

end Agreement

end Mm1
