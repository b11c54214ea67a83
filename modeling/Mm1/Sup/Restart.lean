import Mm1.Sup.Shutdown

/-!
# Starts and restarts

* `start_oneForOne`: `OneForOneDecider` starts a child that is there, stopped and meant to run, as
  long as no shutdown has begun, and starts it again only after a crash;
* `initDone_oneForOne`: `InitDone` comes at most once, and it is not missing when there is nothing
  left to wait for, unless a child of the list has ended during the start-up.
  `startUp_stuck_of_ended` is such a child;
* `initDone_allForOne`: the same for `AllForOneDecider`, unless a child has crashed during the
  start-up. `startUp_lost_of_crash` is such a crash.
-/

namespace Mm1

namespace Decider

open History Option Transition

/-! ### The machines -/

section Machines

variable {σ : Strategy} {sup : SupStatus .oneForOne} {x x' : Option (State .oneForOne)} {δ : Deed}
  {ended : Prop} {t : Turn}

theorem State.childType_fail (s : State σ) : s.fail.childType = s.childType := by
  rw [State.fail]
  split <;> rfl

/-- A temporary child does not crash. -/
private theorem temporary_of_moves {sup : SupStatus σ} {crashed : Prop} {x x' : Option (State σ)}
    (h : State.Moves sup x δ x') (hx : ∀ s, x = some s → s.childType = .temporary → ¬ crashed) :
    ∀ s, x' = some s → s.childType = .temporary →
      ¬ (δ.isCrashed = true ∨ δ.isAdded = false ∧ crashed) := by
  rintro s hs htemp
  cases h with
  | crashed _ hn =>
    obtain rfl := some.inj hs
    dsimp only at htemp
    simp [htemp, ChildType.isAcceptable] at hn
  | added => simp [Deed.isCrashed, Deed.isAdded]
  | failed =>
    obtain rfl := some.inj hs
    rw [State.childType_fail] at htemp
    simpa [Deed.isCrashed, Deed.isAdded] using hx _ rfl htemp
  | dropped => contradiction
  | none => simpa [Deed.isCrashed, Deed.isAdded] using hx s hs htemp
  | _ =>
    obtain rfl := some.inj hs
    simpa [Deed.isCrashed, Deed.isAdded] using hx _ rfl htemp

/-- What the state of a child says about its past while the supervisor is up: `started`, it was
started, and `crash`, its last exit was a crash. -/
structure Restartable (started crash : Prop) (s : State .oneForOne) : Prop where
  terminating : ∀ a, s.status = .terminating a → s.target ≠ .running
  stopped : s.status = .stopped → s.target = .running → started → crash

/-- One step of a child that may be restarted. -/
private theorem restartable_of_moves {started crash : Prop} (h : State.Moves sup x δ x')
    (hup : sup.isUp = true) (hfail : δ ≠ .failed)
    (hx : ∀ s, x = some s → Restartable started crash s) :
    ∀ s, x' = some s →
      Restartable (δ = .start ∨ δ.isAdded = false ∧ started)
        (δ.isCrashed = true ∨ (δ.isExit = false ∧ δ.isAdded = false) ∧ crash) s := by
  intro s hs
  cases h with
  | none =>
    obtain ⟨hterm, hstop⟩ := hx s hs
    exact ⟨hterm, by simpa [Deed.isCrashed, Deed.isExit, Deed.isAdded] using hstop⟩
  | added =>
    obtain rfl := some.inj hs
    exact ⟨by simp, by simp [Deed.isAdded]⟩
  | failed | dropped => contradiction
  | crashed =>
    -- the crash is the last exit now
    obtain rfl := some.inj hs
    exact ⟨by simp, fun _ _ _ => .inl rfl⟩
  | terminated hst =>
    -- a child that was told to stop is not meant to run
    obtain rfl := some.inj hs
    exact ⟨by simp, fun _ ht => absurd ht ((hx _ rfl).terminating _ hst)⟩
  | stop _ ht =>
    obtain rfl := some.inj hs
    exact ⟨fun _ _ => ht hup, by simp⟩
  | removed | ended =>
    obtain rfl := some.inj hs
    exact ⟨by simp, by simp⟩
  | started | start =>
    obtain rfl := some.inj hs
    exact ⟨by simp, by simp⟩

/-- A supervisor that is up has been up before: nothing has begun a shutdown. -/
private theorem isUp_of_moves {sup sup' : SupStatus .oneForOne} (h : sup.Moves t sup')
    (hup : sup'.isUp = true) : sup.isUp = true ∧ (t = .none ∨ t = .initDone) := by
  cases h <;> simp_all [SupStatus.isUp]

private theorem isUp_of_isDown_eq_false (h : sup.isDown = false) : sup.isUp = true := by
  cases sup <;> simp_all [SupStatus.isUp, SupStatus.isDown]

private theorem SupStatus.Moves.eq_of_none {sup sup' : SupStatus σ} (h : sup.Moves .none sup') :
    sup' = sup := by
  cases h
  rfl

private theorem SupStatus.Moves.eq_of_initDone {sup sup' : SupStatus σ}
    (h : sup.Moves .initDone sup') : sup' = .running := by
  cases h
  rfl

/-- What the status says about the start-up: `n` is how often `InitDone` was returned, `crash` that
a child has crashed during the start-up, and `down` that a shutdown has begun. -/
structure StartUp (n : ℕ) (crash down : Prop) (sup : SupStatus σ) : Prop where
  le_one : n ≤ 1
  starting : sup = .starting → n = 0 ∧ ¬ crash
  exclusive : crash → n = 0
  done : sup ≠ .starting → 0 < n ∨ crash ∨ down

/-- One step of the supervisor in its start-up. -/
private theorem startUp_of_moves {sup sup' : SupStatus σ} {n : ℕ} {crash down : Prop}
    (h : sup.Moves t sup') (hs : StartUp n crash down sup) :
    StartUp (n + if t = .initDone then 1 else 0)
      ((t = .groupRestart ∧ sup = .starting) ∨ crash) (t.beginsShutdown = true ∨ down) sup' := by
  obtain ⟨hle, hstart, hexcl, hdone⟩ := hs
  cases h with
  | initDone =>
    obtain ⟨rfl, hcrash⟩ := hstart rfl
    exact ⟨by simp, by simp, by simp [hcrash], by simp⟩
  | @groupRestart sup =>
    refine ⟨by simpa using hle, by simp, ?_, fun _ => ?_⟩
    · rintro (⟨-, hsup⟩ | hcrash)
      · simpa using (hstart hsup).1
      · simpa using hexcl hcrash
    · by_cases hsup : sup = .starting
      · exact .inr (.inl (.inl ⟨rfl, hsup⟩))
      · exact (hdone hsup).imp (by simp) (Or.imp .inr .inr)
  | none => exact ⟨by simpa using hle, by simpa using hstart, by simpa using hexcl,
      by simpa [Turn.beginsShutdown] using hdone⟩
  | noop | quitNow => exact ⟨by simpa using hle, by simp, by simpa using hexcl,
      by simpa [Turn.beginsShutdown] using hdone⟩
  | requested | failure | quitUp | quitStopping | quitStopped =>
    exact ⟨by simpa using hle, by simp, by simpa using hexcl, by simp [Turn.beginsShutdown]⟩

/-- What the state of a child says about its past during the start-up: `ended`, it has ended then
in a way that its type allows. -/
structure EarlyEnd (ended : Prop) (sup : SupStatus .oneForOne) (s : State .oneForOne) : Prop where
  of_target : sup = .starting → s.target = .stopped → s.status = .stopped ∧ ended
  to_stopped : ended → sup.isUp = true →
    sup = .starting ∧ s.status = .stopped ∧ s.target ≠ .running

/-- A child that is not stopped has not ended during the start-up. -/
private theorem EarlyEnd.busy {s : State .oneForOne} (h : EarlyEnd ended sup s)
    (hs : s.status ≠ .stopped) :
    (sup = .starting → s.target ≠ .stopped) ∧ (sup.isUp = true → ¬ ended) :=
  ⟨fun hsup ht => hs (h.of_target hsup ht).1, fun hup he => hs (h.to_stopped he hup).2.1⟩

/-- One step of a child that ends in the start-up. -/
private theorem earlyEnd_of_moves (h : State.Moves sup x δ x') (hfail : δ ≠ .failed)
    (hx : ∀ s, x = some s → EarlyEnd ended sup s) :
    ∀ s, x' = some s →
      EarlyEnd ((δ.isEnded = true ∧ sup = .starting) ∨ δ.isAdded = false ∧ ended) sup s := by
  intro s hs
  cases h with
  | none => simpa [Deed.isEnded, Deed.isAdded] using hx s hs
  | failed | dropped => contradiction
  | added =>
    obtain rfl := some.inj hs
    exact ⟨by simp, by simp [Deed.isEnded, Deed.isAdded]⟩
  | removed =>
    obtain rfl := some.inj hs
    refine ⟨by simp, fun he hup => ?_⟩
    have hended : ended := by simpa [Deed.isEnded, Deed.isAdded] using he
    obtain ⟨hsup, hst, -⟩ := (hx _ rfl).to_stopped hended hup
    exact ⟨hsup, hst, by simp⟩
  | ended hst =>
    obtain rfl := some.inj hs
    obtain ⟨-, hbusy⟩ := (hx _ rfl).busy (by simp [hst])
    refine ⟨fun hsup _ => ⟨rfl, .inl ⟨rfl, hsup⟩⟩, ?_⟩
    rintro (⟨-, hsup⟩ | ⟨-, he⟩) hup
    · exact ⟨hsup, rfl, by simp⟩
    · exact absurd he (hbusy hup)
  | start _ _ ht =>
    obtain rfl := some.inj hs
    refine ⟨by simp [ht], fun he hup => ?_⟩
    have hended : ended := by simpa [Deed.isEnded, Deed.isAdded] using he
    exact absurd ht ((hx _ rfl).to_stopped hended hup).2.2
  | started hst | terminated hst | crashed hst | stop hst =>
    obtain rfl := some.inj hs
    obtain ⟨htarget, hbusy⟩ := (hx _ rfl).busy (by simp [hst])
    refine ⟨fun hsup ht => absurd ht (htarget hsup), fun he hup => ?_⟩
    exact absurd (by simpa [Deed.isEnded, Deed.isAdded] using he) (hbusy hup)

end Machines

/-! ### The starts of a child -/

variable {K : Type*} [DecidableEq K] {σ : Strategy} {intensity : RestartIntensity}
  {first : Option Address} {k : K} {s : Run K .oneForOne} {c : State .oneForOne}

/-- `Start` was returned for the child since it was added. -/
def WasStarted (k : K) (log : List (Event K σ)) : Prop :=
  Since (fun e => deed k e = .start) (fun e => (deed k e).isAdded = false) log

/-- The child has ended since it was added, and the last time it was running and ended in a way
that its type does not allow. -/
def LastExitCrash (k : K) (log : List (Event K σ)) : Prop :=
  Since (fun e => (deed k e).isCrashed = true)
    (fun e => (deed k e).isExit = false ∧ (deed k e).isAdded = false) log

/-- The child has crashed since it was added. -/
def HasCrashed (k : K) (log : List (Event K σ)) : Prop :=
  Since (fun e => (deed k e).isCrashed = true) (fun e => (deed k e).isAdded = false) log

private theorem LastExitCrash.hasCrashed {log : List (Event K σ)} (h : LastExitCrash k log) :
    HasCrashed k log :=
  h.mono (fun _ he => he) (fun _ he => he.2)

private theorem turn_eq_failure_of_deed {e : Event K σ} (h : deed k e = .failed) :
    turn e = .failure := by
  obtain ⟨d, c, out⟩ := e
  cases c <;> grind [deed, dropDeed, turn]

/-- A supervisor that stays up has no failure. -/
private theorem deed_ne_failed {e : Event K σ} (h : turn e = .none ∨ turn e = .initDone) :
    deed k e ≠ .failed := by
  intro hdeed
  simp [turn_eq_failure_of_deed hdeed] at h

private theorem not_hasCrashed_of_temporary {s : Run K σ} (h : Runs intensity s) {c : State σ}
    (hk : s.state.states.lookup k = some c) (hc : c.childType = .temporary) :
    ¬ HasCrashed k s.log := by
  refine log_invariant (P := fun d log => ∀ c, d.states.lookup k = some c →
    c.childType = .temporary → ¬ HasCrashed k log) h ?_ ?_ c hk hc
  · exact fun c hk => by simp [new] at hk
  · intro d d' log l out ih _ hcall
    exact temporary_of_moves (state_moves_of_call k hcall) ih

/-- The reading of `Restartable` for a run. -/
private theorem restartable_of_isUp (h : Runs intensity s) (hup : s.state.status.isUp = true)
    (hk : s.state.states.lookup k = some c) :
    Restartable (WasStarted k s.log) (LastExitCrash k s.log) c := by
  refine log_invariant (P := fun d log => d.status.isUp = true → ∀ c,
    d.states.lookup k = some c → Restartable (WasStarted k log) (LastExitCrash k log) c)
    h ?_ ?_ hup c hk
  · exact fun _ c hk => by simp [new] at hk
  · intro d d' log l out ih _ hcall hup'
    obtain ⟨hup, hturn⟩ := isUp_of_moves (status_moves_of_call hcall) hup'
    exact restartable_of_moves (state_moves_of_call k hcall) hup (deed_ne_failed hturn) (ih hup)

private theorem no_shutdown_of_isUp (h : Runs intensity s) (hup : s.state.status.isUp = true) :
    ∀ e ∈ s.log, (turn e).beginsShutdown = false := by
  refine log_invariant (P := fun d log => d.status.isUp = true →
    ∀ e ∈ log, (turn e).beginsShutdown = false) h ?_ ?_ hup
  · simp
  · intro d d' log l out ih _ hcall hup'
    obtain ⟨hup, hturn⟩ := isUp_of_moves (status_moves_of_call hcall) hup'
    refine List.forall_mem_cons.mpr ⟨?_, ih hup⟩
    rcases hturn with hturn | hturn <;> rw [hturn] <;> rfl

/-- **The starts of `OneForOneDecider`.** `Start` is returned for a child that is there, stopped
and meant to run, and as long as no shutdown has begun. If it was returned before, since the child
was added, then the last exit of the child came while it was running and was not acceptable for
its type; so it is returned at most once for a temporary child. -/
theorem start_oneForOne {s : Run K .oneForOne} (h : Runs intensity s)
    {d' : OneForOneDecider K} (hstart : s.state.nextAction first = some (d', some (.start k))) :
    (∀ e ∈ s.log, (turn e).beginsShutdown = false) ∧
      ∃ c, s.state.states.lookup k = some c ∧ c.status = .stopped ∧ c.target = .running ∧
        (WasStarted k s.log → LastExitCrash k s.log) ∧
          (c.childType = .temporary → ¬ WasStarted k s.log) := by
  cases moves_nextAction hstart with
  | start _ hup hk hs ht =>
    obtain ⟨hk, -⟩ := lookup_of_retained hk
    have hcrash := (restartable_of_isUp h hup hk).stopped hs ht
    refine ⟨no_shutdown_of_isUp h hup, _, hk, hs, ht, hcrash, fun htemp hstarted => ?_⟩
    exact not_hasCrashed_of_temporary h hk htemp (hcrash hstarted).hasCrashed

/-- A child is started again after a crash. -/
theorem start_oneForOne_again :
    ∃ (s : Run ℕ .oneForOne) (d' : OneForOneDecider ℕ),
      Runs ⟨1, 10⟩ s ∧ s.state.nextAction none = some (d', some (.start 0)) ∧
        WasStarted 0 s.log ∧ LastExitCrash 0 s.log := by
  obtain ⟨s, h, hwas, d', hstart⟩ : ∃ s : Run ℕ .oneForOne, Runs ⟨1, 10⟩ s ∧ WasStarted 0 s.log ∧
      ∃ d', s.state.nextAction none = some (d', some (.start 0)) :=
    ⟨_, reaches_get (upCalls ++ [.exited ⟨1⟩ false 0]) rfl,
      by unfold WasStarted; decide, _, rfl⟩
  obtain ⟨-, c, -, -, -, hcrash, -⟩ := start_oneForOne h hstart
  exact ⟨s, d', h, hstart, hwas, hcrash hwas⟩

/-! ### The end of the start-up -/

/-- The child has ended during the start-up of the supervisor, in a way that its type allows, since
it was added. -/
def EndedInStartUp (k : K) (log : List (Event K σ)) : Prop :=
  Since (fun e => (deed k e).isEnded = true ∧ e.before.status = .starting)
    (fun e => (deed k e).isAdded = false) log

/-- A crash during the start-up restarts the group. -/
def CrashedInStartUp (log : List (Event K σ)) : Prop :=
  ∃ e ∈ log, turn e = .groupRestart ∧ e.before.status = .starting

/-- The number of times that `InitDone` was returned. -/
def initDones (log : List (Event K σ)) : ℕ := log.countP fun e => turn e = .initDone

/-- The reading of `StartUp` for a run. -/
private theorem startUp_of_runs {s : Run K σ} (h : Runs intensity s) :
    StartUp (initDones s.log) (CrashedInStartUp s.log)
      (∃ e ∈ s.log, (turn e).beginsShutdown = true) s.state.status := by
  refine log_invariant (P := fun d log => StartUp (initDones log) (CrashedInStartUp log)
    (∃ e ∈ log, (turn e).beginsShutdown = true) d.status) h ?_ ?_
  · exact ⟨by simp [initDones], by simp [initDones, CrashedInStartUp], by simp [CrashedInStartUp],
      fun hne => absurd rfl hne⟩
  · intro d d' log l out ih _ hcall
    have hnext := startUp_of_moves (status_moves_of_call hcall) ih
    simpa only [initDones, List.countP_cons, CrashedInStartUp, List.exists_mem_cons_iff,
      decide_eq_true_eq] using hnext

/-- `InitDone` is returned when all children are running. -/
private theorem running_of_initDone {d d' : Decider K σ} {c : Call K} {out : Option (Action K)}
    (h : d.call c = some (d', out)) (ht : turn ⟨d, c, out⟩ = .initDone) {x : State σ}
    (hk : d'.states.lookup k = some x) : x.status.isRunning = true := by
  cases moves_of_call h with
  | initDone _ _ hall => exact (hall k x hk).1
  | unknown he | terminated he | ended he => simp [turn, he] at ht
  | exceeded he _ _ _ hex => simp [turn, he, hex] at ht
  | crashed he _ _ _ hex => cases σ <;> simp [turn, he, hex, crashTurn] at ht
  | failedUnknown hj | failed hj => simp [turn, hj] at ht
  | _ => simp [turn] at ht

/-- The reading of `EarlyEnd` for a run. -/
private theorem earlyEnd_of_runs (h : Runs intensity s) (hk : s.state.states.lookup k = some c) :
    EarlyEnd (EndedInStartUp k s.log) s.state.status c := by
  refine log_invariant (P := fun d log => ∀ c, d.states.lookup k = some c →
    EarlyEnd (EndedInStartUp k log) d.status c) h ?_ ?_ c hk
  · exact fun c hk => by simp [new] at hk
  · intro d d' log l out ih _ hcall c hk
    have hmoves := status_moves_of_call hcall
    cases hup' : d'.status.isUp with
    | false =>
      exact ⟨fun hsup => by simp [hsup, SupStatus.isUp] at hup', fun _ hup => by simp [hup] at hup'⟩
    | true =>
      obtain ⟨hup, hturn⟩ := isUp_of_moves hmoves hup'
      have hnext := earlyEnd_of_moves (state_moves_of_call k hcall) (deed_ne_failed hturn) ih c hk
      rcases hturn with hturn | hturn <;> rw [hturn] at hmoves
      · rw [hmoves.eq_of_none]
        exact hnext
      · -- a child that has ended is in the way of `InitDone`
        have hrun := running_of_initDone hcall hturn hk
        refine ⟨fun hsup => by simp [hmoves.eq_of_initDone] at hsup, fun he _ => ?_⟩
        obtain ⟨-, hst, -⟩ := hnext.to_stopped he hup
        simp [hst, Status.isRunning] at hrun

private theorem exists_initDone_iff {log : List (Event K σ)} :
    (∃ e ∈ log, turn e = .initDone) ↔ 0 < initDones log := by
  simp [initDones, List.countP_pos_iff]

private theorem not_crashedInStartUp {log : List (Event K .oneForOne)} :
    ¬ CrashedInStartUp log := by
  rintro ⟨e, -, hturn, -⟩
  obtain ⟨d, c, out⟩ := e
  cases c <;> grind [turn, crashTurn]

/-- **The start-up of `OneForOneDecider`.** `InitDone` is returned at most once. When `next_action`
returns nothing, no shutdown has begun and no child is on its way, it has been returned, unless a
child of the list has ended during the start-up in a way that its type allows. -/
theorem initDone_oneForOne {s : Run K .oneForOne} (h : Runs intensity s) :
    initDones s.log ≤ 1 ∧ ∀ (first : Option Address) (d' : OneForOneDecider K),
      s.state.nextAction first = some (d', none) →
      (∀ e ∈ s.log, (turn e).beginsShutdown = false) →
      (∀ k c, s.state.states.lookup k = some c →
        c.status ≠ .starting ∧ ∀ a, c.status ≠ .terminating a) →
      ((∃ e ∈ s.log, turn e = .initDone) ↔
        ∀ k c, s.state.states.lookup k = some c → ¬ EndedInStartUp k s.log) := by
  have hstartUp := startUp_of_runs h
  refine ⟨hstartUp.le_one, fun first d' hnone hup hsettled => ?_⟩
  have hdown : ¬ ∃ e ∈ s.log, (turn e).beginsShutdown = true := by
    rintro ⟨e, he, hbegins⟩
    simp [hup e he] at hbegins
  have hisUp : s.state.status.isUp = true := by
    refine isUp_of_isDown_eq_false (Bool.eq_false_iff.mpr fun hd => hdown ?_)
    exact ((isDown_iff_shuttingDown h).mp hd).exists_mem
  rw [exists_initDone_iff]
  constructor
  · intro hdone k c hk hended
    have hstarting := ((earlyEnd_of_runs h hk).to_stopped hended hisUp).1
    exact absurd (hstartUp.starting hstarting).1 hdone.ne'
  · intro hnot
    by_contra hzero
    have hstarting : s.state.status = .starting := by
      by_contra hne
      rcases hstartUp.done hne with hpos | hcrash | hd
      · exact hzero hpos
      · exact not_crashedInStartUp hcrash
      · exact hdown hd
    cases moves_nextAction hnone with
    | idle _ hv hi =>
      obtain ⟨k, c, hk, hrun⟩ := hi hstarting
      have hskip := hv (by simp [hstarting]) k c hk
      obtain ⟨hk, -⟩ := lookup_of_retained hk
      obtain ⟨hne, hne'⟩ := hsettled k c hk
      have htarget : c.target = .stopped := by
        rw [hstarting] at hskip
        rcases Visit.of_eq_skip hskip with hst | ⟨a, hst⟩ | ⟨hst, -⟩ | ⟨-, ht⟩
        · exact absurd hst hne
        · exact absurd hst (hne' a)
        · simp [hst] at hrun
        · exact ht
      exact hnot k c hk ((earlyEnd_of_runs h hk).of_target hstarting htarget).2

/-- A run in which the only child comes up. -/
theorem initDone_oneForOne_up :
    ∃ (s : Run ℕ .oneForOne) (d' : OneForOneDecider ℕ),
      Runs ⟨1, 10⟩ s ∧ s.state.nextAction none = some (d', none) ∧
        initDones s.log ≤ 1 ∧ ∃ e ∈ s.log, turn e = .initDone := by
  obtain ⟨s, h, hup, hentries, hended, d', hnone⟩ : ∃ s : Run ℕ .oneForOne,
      Runs ⟨1, 10⟩ s ∧ (∀ e ∈ s.log, (turn e).beginsShutdown = false) ∧
        s.state.states.entries = [(0, ⟨.permanent, .running ⟨1⟩, .running⟩)] ∧
          ¬ EndedInStartUp 0 s.log ∧ ∃ d', s.state.nextAction none = some (d', none) :=
    ⟨_, reaches_get upCalls rfl, by decide, rfl, by unfold EndedInStartUp; decide, _,
      rfl⟩
  have hlook : ∀ k c, s.state.states.lookup k = some c →
      k = 0 ∧ c = ⟨.permanent, .running ⟨1⟩, .running⟩ := by
    intro k c hk
    simpa [Roster.lookup_eq_some_iff, hentries] using hk
  obtain ⟨hone, hdone⟩ := initDone_oneForOne h
  refine ⟨s, d', h, hnone, hone, (hdone none d' hnone hup fun k c hk => ?_).mpr fun k c hk => ?_⟩
  · obtain ⟨-, rfl⟩ := hlook k c hk
    exact ⟨by simp, by simp⟩
  · obtain ⟨rfl, -⟩ := hlook k c hk
    exact hended

/-- A start-up that does not end: the only child is a temporary one, and it ends before `InitDone`
is due. -/
theorem startUp_stuck_of_ended :
    ∃ (s : Run ℕ .oneForOne) (d' : OneForOneDecider ℕ),
      Runs ⟨1, 10⟩ s ∧ s.state.nextAction none = some (d', none) ∧
        (∀ e ∈ s.log, (turn e).beginsShutdown = false) ∧
        s.state.states.entries = [(0, ⟨.temporary, .stopped, .stopped⟩)] ∧
        ∀ e ∈ s.log, turn e ≠ .initDone :=
  ⟨_, _, reaches_get
    [.add 0 .temporary, .nextAction none, .started 0 ⟨1⟩, .exited ⟨1⟩ true 0] rfl, rfl, by decide,
    rfl, by decide⟩

/-- **The start-up of `AllForOneDecider`.** `InitDone` is returned at most once. When `next_action`
returns nothing, no shutdown has begun and every child is running, it has been returned, unless a
child has crashed during the start-up. -/
theorem initDone_allForOne {s : Run K .allForOne} (h : Runs intensity s) :
    initDones s.log ≤ 1 ∧ ∀ (first : Option Address) (d' : AllForOneDecider K),
      s.state.nextAction first = some (d', none) →
      (∀ e ∈ s.log, (turn e).beginsShutdown = false) →
      (∀ k c, s.state.states.lookup k = some c → c.status.isRunning = true) →
      ((∃ e ∈ s.log, turn e = .initDone) ↔ ¬ CrashedInStartUp s.log) := by
  have hstartUp := startUp_of_runs h
  refine ⟨hstartUp.le_one, fun first d' hnone hup hrunning => ?_⟩
  rw [exists_initDone_iff]
  constructor
  · exact fun hdone hcrash => absurd (hstartUp.exclusive hcrash) hdone.ne'
  · intro hcrash
    have hstarting : s.state.status ≠ .starting := by
      intro hstarting
      cases moves_nextAction hnone with
      | idle _ _ hi =>
        obtain ⟨k, c, hk, hrun⟩ := hi hstarting
        simp [hrunning k c (lookup_of_retained hk).1] at hrun
    rcases hstartUp.done hstarting with hpos | hc | ⟨e, he, hbegins⟩
    · exact hpos
    · exact absurd hc hcrash
    · simp [hup e he] at hbegins

/-- A run in which the only child comes up. -/
theorem initDone_allForOne_up :
    ∃ (s : Run ℕ .allForOne) (d' : AllForOneDecider ℕ),
      Runs ⟨1, 10⟩ s ∧ s.state.nextAction none = some (d', none) ∧
        initDones s.log ≤ 1 ∧ ∃ e ∈ s.log, turn e = .initDone := by
  obtain ⟨s, h, hup, hentries, hcrash, d', hnone⟩ : ∃ s : Run ℕ .allForOne,
      Runs ⟨1, 10⟩ s ∧ (∀ e ∈ s.log, (turn e).beginsShutdown = false) ∧
        s.state.states.entries = [(0, ⟨.permanent, .running ⟨1⟩, .running⟩)] ∧
          ¬ CrashedInStartUp s.log ∧ ∃ d', s.state.nextAction none = some (d', none) :=
    ⟨_, reaches_get upCalls rfl, by decide, rfl, by unfold CrashedInStartUp; decide, _,
      rfl⟩
  obtain ⟨hone, hdone⟩ := initDone_allForOne h
  refine ⟨s, d', h, hnone, hone, (hdone none d' hnone hup fun k c hk => ?_).mpr hcrash⟩
  obtain ⟨-, rfl⟩ : k = 0 ∧ c = ⟨.permanent, .running ⟨1⟩, .running⟩ := by
    simpa [Roster.lookup_eq_some_iff, hentries] using hk
  rfl

/-- A start-up whose end is not told: the only child is a permanent one, it crashes before
`InitDone` is due, and it is running again after the restart of the group. -/
theorem startUp_lost_of_crash :
    ∃ (s : Run ℕ .allForOne) (d' : AllForOneDecider ℕ),
      Runs ⟨1, 10⟩ s ∧ s.state.nextAction none = some (d', none) ∧
        (∀ e ∈ s.log, (turn e).beginsShutdown = false) ∧
        s.state.states.entries = [(0, ⟨.permanent, .running ⟨2⟩, .running⟩)] ∧
        ∀ e ∈ s.log, turn e ≠ .initDone :=
  ⟨_, _, reaches_get [.add 0 .permanent, .nextAction none, .started 0 ⟨1⟩,
    .exited ⟨1⟩ false 0, .nextAction none, .nextAction none, .started 0 ⟨2⟩] rfl, rfl, by decide,
    rfl, by decide⟩

end Decider

end Mm1
