import Mm1.Sup.Lifecycle

/-!
# The shutdown of a supervisor

A shutdown begins with an exit from an address that belongs to no child, with a child that could
not be started, with `quit`, or with a crash that exceeds the restart intensity. The children are
then told to stop, and when all of them have stopped, the decider returns `Quit`.

* `no_child_left_of_quit`: at `Quit` every child that was reported as started has ended or was told
  to stop;
* `actions_of_shutdown`: as long as no crash has restarted the group since the shutdown began, the
  decider asks for nothing but `Stop` and `Quit`. `shutdown_restarted` is a shutdown of
  `AllForOneDecider` that a crash turns into a restart;
* `quit_abnormal_iff`: which shutdowns end with `normal_exit = false`. `failure_forgotten` is one
  that has failed and ends as a normal one;
* `exited_unchanged_iff`: when an exit changes nothing. `orphan_shuts_down` is an orphan whose end
  shuts the supervisor down.
-/

namespace Mm1

namespace Decider

open History Transition SupStatus

/-- What the status says about the causes of a shutdown: `failed` is whether an abnormal one
stands. -/
def SupStatus.Flags {σ : Strategy} (failed : Prop) : SupStatus σ → Prop
  | .stopping n => n = false ↔ failed
  | .stopped => True
  | .starting | .running | .restarting => ¬ failed

variable {K : Type*} [DecidableEq K] {σ : Strategy} {intensity : RestartIntensity}
  {s : Run K σ} {d d' : Decider K σ} {first : Option Address} {a : Address}
  {out : Option (Action K)} {sup sup' : SupStatus σ} {c : State σ} {t : Turn}

/-! ### The way down -/

/-- A shutdown has begun, and no crash has restarted the group since. -/
def ShuttingDown (log : List (Event K σ)) : Prop :=
  Since (fun e => (turn e).beginsShutdown) (fun e => turn e ≠ .groupRestart) log

instance (log : List (Event K σ)) : Decidable (ShuttingDown log) :=
  inferInstanceAs (Decidable (Since _ _ _))

private theorem isDown_of_moves (h : sup.Moves t sup') :
    sup'.isDown = true ↔
      t.beginsShutdown = true ∨ t ≠ .groupRestart ∧ sup.isDown = true := by
  cases h <;> simp_all [isDown, Turn.beginsShutdown]

/-- The status says whether a shutdown is going on. -/
theorem isDown_iff_shuttingDown (h : Runs intensity s) :
    s.state.status.isDown = true ↔ ShuttingDown s.log := by
  refine log_invariant (P := fun d log => d.status.isDown = true ↔ ShuttingDown log) h ?_ ?_
  · simp [new, isDown, ShuttingDown]
  · intro d d' log c out ih _ hcall
    rw [isDown_of_moves (status_moves_of_call hcall), ih]
    rfl

/-- What a decider asks for on the way down. -/
private theorem action_of_isDown {act : Action K} (hdown : d.status.isDown = true)
    (h : d.nextAction first = some (d', some act)) :
    (∃ a k, act = .stop a k) ∨ ∃ n, act = .quit n := by
  cases moves_nextAction h with
  | stopOrphan | stop => exact .inl ⟨_, _, rfl⟩
  | quitNow => exact .inr ⟨_, rfl⟩
  | start _ hup => cases hst : d.status <;> simp_all [isUp, isDown]
  | initDone _ hup | noop _ hup => simp [hup, isDown] at hdown

/-- **No way back.** Once the supervisor has begun to stop, and as long as no crash restarts the
group, every action is `Stop` or `Quit`. -/
theorem actions_of_shutdown {s : Run K .allForOne} (h : Runs intensity s)
    (hdown : ShuttingDown s.log) {d' : AllForOneDecider K} {act : Action K}
    (hact : s.state.nextAction first = some (d', some act)) :
    (∃ a k, act = .stop a k) ∨ ∃ n, act = .quit n :=
  action_of_isDown ((isDown_iff_shuttingDown h).mpr hdown) hact

theorem actions_of_shutdown_quit :
    ∃ (s : Run ℕ .allForOne) (d' : AllForOneDecider ℕ) (act : Action ℕ),
      Runs ⟨1, 10⟩ s ∧ ShuttingDown s.log ∧ s.state.nextAction none = some (d', some act) ∧
        ((∃ a k, act = .stop a k) ∨ ∃ n, act = .quit n) := by
  have h : Runs ⟨1, 10⟩ (_ : Run ℕ .allForOne) := reaches_get (upCalls ++ [.quit true]) rfl
  exact ⟨_, _, _, h, by decide,
    (and_iff_left_of_imp (actions_of_shutdown h (by decide))).mpr rfl⟩

/-- A shutdown that becomes a restart: the child crashes after `quit` and before it is told to
stop. The actions that follow are `Noop` and `Start`. -/
theorem shutdown_restarted :
    ∃ (s : Run ℕ .allForOne) (d' : AllForOneDecider ℕ),
      Runs ⟨1, 10⟩ s ∧ (∃ e ∈ s.log, (turn e).beginsShutdown = true) ∧
        s.state.nextAction none = some (d', some (.start 0)) :=
  ⟨_, _, reaches_get (upCalls ++ [.quit true, .exited ⟨1⟩ false 0, .nextAction none])
    rfl, by decide, rfl⟩

/-! ### The flag of `Quit` -/

/-- An abnormal cause is recorded, and since then the supervisor was neither asked to terminate
nor has a crash restarted the group. -/
def FailureStands (log : List (Event K σ)) : Prop :=
  Since (fun e => (turn e).isAbnormal) (fun e => turn e ≠ .requested ∧ turn e ≠ .groupRestart) log

/-- One step of the flag of the exit. -/
private theorem flags_of_moves {failed : Prop} (h : sup.Moves t sup') (hf : sup.Flags failed) :
    sup'.Flags (t.isAbnormal = true ∨ (t ≠ .requested ∧ t ≠ .groupRestart) ∧ failed) := by
  cases h with
  | none => simpa [Turn.isAbnormal] using hf
  | requested | failure => simp [SupStatus.Flags, Turn.isAbnormal]
  | @quitUp _ _ n hs =>
    have hnot : ¬ failed := by cases sup <;> simp_all [SupStatus.Flags, isDown]
    cases n <;> simp [SupStatus.Flags, Turn.isAbnormal, hnot]
  | @quitStopping _ n m =>
    change m = false ↔ failed at hf
    cases n <;> simp [SupStatus.Flags, Turn.isAbnormal, hf]
  | quitStopped => trivial
  | groupRestart => simp [SupStatus.Flags, Turn.isAbnormal]
  | initDone | noop => simpa [SupStatus.Flags, Turn.isAbnormal] using hf
  | quitNow => trivial

private theorem flags_of_runs (h : Runs intensity s) :
    s.state.status.Flags (FailureStands s.log) := by
  refine log_invariant (P := fun d log => d.status.Flags (FailureStands log)) h ?_ ?_
  · exact since_nil
  · intro d d' log c out ih _ hcall
    exact flags_of_moves (status_moves_of_call hcall) ih

/-- **How a supervisor quits.** `Quit` is abnormal just in case an abnormal cause was recorded, and
was not overwritten since then: by an exit from an address that belongs to no child, or by a crash
that restarted the group. -/
theorem quit_abnormal_iff (h : Runs intensity s) {n : Bool}
    (hquit : s.state.nextAction first = some (d', some (.quit n))) :
    n = false ↔ FailureStands s.log := by
  have hflags := flags_of_runs h
  cases moves_nextAction hquit with
  | quitNow _ hup => rwa [hup] at hflags

/-- The calls of a shutdown after the child could not be started: it is told to stop, and it
ends. -/
def downCalls : List (Call ℕ) := [.failed 0, .nextAction none, .exited ⟨1⟩ true 0]

theorem quit_abnormal_iff_failed :
    ∃ (s : Run ℕ .oneForOne) (d' : OneForOneDecider ℕ) (n : Bool),
      Runs ⟨1, 10⟩ s ∧ s.state.nextAction none = some (d', some (.quit n)) ∧
        (n = false ↔ FailureStands s.log) := by
  have h : Runs ⟨1, 10⟩ (_ : Run ℕ .oneForOne) := reaches_get (upCalls ++ downCalls) rfl
  exact ⟨_, _, _, h, (and_iff_left_of_imp (quit_abnormal_iff h)).mpr rfl⟩

/-- Some run has failed, and `Quit` is a normal one. -/
def ForgetsFailure (σ : Strategy) : Prop :=
  ∃ (s : Run ℕ σ) (d' : Decider ℕ σ),
    Runs ⟨1, 10⟩ s ∧ (∃ e ∈ s.log, (turn e).isAbnormal = true) ∧
      s.state.nextAction none = some (d', some (.quit true))

/-- A failure that is forgotten: after it, there comes an exit from an address that belongs to no
child. -/
theorem failure_forgotten : ForgetsFailure .oneForOne ∧ ForgetsFailure .allForOne := by
  have hforgets : ∀ σ, ForgetsFailure σ := by
    intro σ
    cases σ <;> exact ⟨_, _, reaches_get
      (upCalls ++ downCalls ++ [.exited ⟨2⟩ true 0]) rfl, by decide, rfl⟩
  exact ⟨hforgets _, hforgets _⟩

/-! ### The children at the end -/

/-- A child that is in the list is reported as started, with this address. -/
def reportsStart (a : Address) (e : Event K σ) : Bool :=
  match e.label with
  | .started k b => decide (b = a) && (e.before.states.lookup k).isSome
  | _ => false

/-- The address is reported as gone, or it is told to stop. -/
def isReleased (a : Address) (e : Event K σ) : Bool :=
  match e.label, e.output with
  | .exited b _ _, _ | _, some (.stop b _) => decide (b = a)
  | _, _ => false

/-- The address was reported as the one of a child, which has neither ended since nor been told to
stop. -/
def IsPending (a : Address) (log : List (Event K σ)) : Prop :=
  Since (fun e => reportsStart a e) (fun e => ¬ isReleased a e) log

/-- A decider knows of an address. -/
def Knows (d : Decider K σ) (a : Address) : Prop :=
  a ∈ d.orphans ∨ ∃ k c, d.states.lookup k = some c ∧ c.status = .running a

omit [DecidableEq K] in
/-- A running child goes on running unless it ends or is told to stop. -/
private theorem running_of_moves {sup : SupStatus σ} {c' : Option (State σ)} {δ : Deed}
    (h : State.Moves sup (some c) δ c') (hc : c.status = .running a) :
    (∃ r, c' = some r ∧ r.status = .running a) ∨ δ = .ended a ∨ δ = .crashed a ∨ δ = .stop a := by
  cases h with
  | none => exact .inl ⟨c, rfl, hc⟩
  | removed => exact .inl ⟨_, rfl, hc⟩
  | failed => exact .inl ⟨_, rfl, by rw [State.fail, hc]⟩
  | ended hs | crashed hs | stop hs => simp [Status.running.inj (hs.symm.trans hc)]
  | started hs | terminated hs | start _ hs => simp [hc] at hs
  | dropped hs =>
    obtain ⟨t, st, tgt⟩ := c
    obtain rfl : st = .running a := hc
    simp [State.isGone] at hs

/-- A child ends, or is told to stop, by a call that names its address. -/
private theorem isReleased_of_deed {e : Event K σ} {k : K}
    (h : deed k e = .ended a ∨ deed k e = .crashed a ∨ deed k e = .stop a) :
    isReleased a e = true := by
  obtain ⟨d, c, out⟩ := e
  cases c with
  | exited b n t => grind [deed, isReleased]
  | nextAction first => grind [deed, dropDeed, isReleased]
  | add | rm | address | started | failed | quit => grind [deed]

/-- A reported start makes an address known. -/
private theorem knows_of_reportsStart {c : Call K} (h : d.call c = some (d', out))
    (hr : reportsStart a ⟨d, c, out⟩ = true) : d'.Knows a := by
  cases moves_of_call h with
  | startedUnknown hk => simp [reportsStart, hk] at hr
  | orphaned =>
    simp only [reportsStart, Bool.and_eq_true, decide_eq_true_eq] at hr
    exact .inl (Finset.mem_insert.mpr (.inl hr.1.symm))
  | started _ hk =>
    simp only [reportsStart, Bool.and_eq_true, decide_eq_true_eq] at hr
    obtain ⟨rfl, -⟩ := hr
    exact .inr ⟨_, _, Roster.lookup_modify_self hk, rfl⟩
  | _ => simp [reportsStart] at hr

/-- An address is known until it is released. -/
private theorem knows_of_call {c : Call K} (h : d.call c = some (d', out)) (hk : d.Knows a)
    (hr : ¬ isReleased a (⟨d, c, out⟩ : Event K σ)) : d'.Knows a := by
  rcases hk with ho | ⟨k, c, hc, hrun⟩
  · cases moves_of_call h with
    | orphaned => exact .inl (Finset.mem_insert_of_mem ho)
    | stopOrphan =>
      refine .inl (Finset.mem_erase.mpr ⟨?_, ho⟩)
      rintro rfl
      simp [isReleased] at hr
    | _ => exact .inl ho
  · have hmoves := state_moves_of_call k h
    rw [hc] at hmoves
    rcases running_of_moves hmoves hrun with ⟨r, hr', hrun'⟩ | hdeed
    · exact .inr ⟨k, r, hr', hrun'⟩
    · exact absurd (isReleased_of_deed hdeed) hr

/-- The children that are still running, and not told to stop, are known. -/
private theorem knows_of_isPending (h : Runs intensity s) (ha : IsPending a s.log) :
    s.state.Knows a := by
  refine log_invariant (P := fun d log => IsPending a log → d.Knows a) h ?_ ?_ ha
  · exact fun h => absurd h since_nil
  · intro d d' log c out ih _ hcall hpend
    rcases hpend with hrep | ⟨hrel, hpend⟩
    · exact knows_of_reportsStart hcall hrep
    · exact knows_of_call hcall (ih hpend) hrel

/-- **No child is left.** When a decider returns `Quit`, each child that was reported as started
has ended since or was told to stop, and no child is being started. -/
theorem no_child_left_of_quit (h : Runs intensity s) {n : Bool}
    (hquit : s.state.nextAction first = some (d', some (.quit n))) :
    (∀ a, ¬ IsPending a s.log) ∧
      ∀ k c, s.state.states.lookup k = some c → c.status ≠ .starting := by
  cases moves_nextAction hquit with
  | quitNow ho _ hall =>
    have hstopped : ∀ k c, s.state.states.lookup k = some c → c.status = .stopped := by
      intro k c hk
      cases hgone : c.isGone with
      | false => exact hall k c (by rw [lookup_retained, hk]; simp [Option.filter_some, hgone])
      | true =>
        obtain ⟨t, st, tgt⟩ := c
        cases st <;> simp [State.isGone] at hgone ⊢
    refine ⟨fun a ha => ?_, fun k c hk => by simp [hstopped k c hk]⟩
    rcases knows_of_isPending h ha with horph | ⟨k, c, hk, hrun⟩
    · rw [ho] at horph
      exact absurd horph (Finset.notMem_empty a)
    · simp [hstopped k c hk] at hrun

theorem no_child_left_of_quit_failed :
    ∃ (s : Run ℕ .allForOne) (d' : AllForOneDecider ℕ) (n : Bool),
      Runs ⟨1, 10⟩ s ∧ s.state.nextAction none = some (d', some (.quit n)) ∧
        (∃ e ∈ s.log, reportsStart ⟨1⟩ e = true) ∧ ¬ IsPending ⟨1⟩ s.log := by
  have h : Runs ⟨1, 10⟩ (_ : Run ℕ .allForOne) := reaches_get (upCalls ++ downCalls) rfl
  exact ⟨_, _, _, h, (and_iff_left_of_imp fun hquit =>
    ⟨by decide, (no_child_left_of_quit h hquit).1 ⟨1⟩⟩).mpr rfl⟩

/-! ### Exits that change nothing -/

private theorem status_eq_of_modify_eq {k : K} {f : State σ → State σ}
    (hk : d.states.lookup k = some c) (h : d.states.modify k f = d.states) :
    (f c).status = c.status := by
  have hlook : (d.states.modify k f).lookup k = some (f c) := Roster.lookup_modify_self hk
  rw [h, hk, Option.some.injEq] at hlook
  rw [← hlook]

/-- When a run is in a normal shutdown that is not over. -/
private theorem stopping_true_iff_of_runs (h : Runs intensity s) : s.state.status = .stopping true ↔
    s.state.status ≠ .stopped ∧ ShuttingDown s.log ∧ ¬ FailureStands s.log := by
  have hflags := flags_of_runs h
  rw [← isDown_iff_shuttingDown h]
  cases hs : s.state.status with
  | starting | running | restarting | stopped => simp [isDown]
  | stopping n =>
    rw [hs] at hflags
    have hiff : n = false ↔ FailureStands s.log := hflags
    simp [isDown, ← hiff]

/-- **Exits that change nothing.** An exit leaves the status and the children as they are just in
case the address belongs to no child and the supervisor is already stopping normally: in a run, that
is a shutdown that has begun and is not over, and no failure stands. -/
theorem exited_unchanged_iff {a : Address} {n : Bool} {t : Instant}
    (h : d.exited a n t = some d') :
    (d'.status = d.status ∧ d'.states = d.states ↔ d.childAt a = none ∧ d.status = .stopping true) ∧
    ∀ s : Run K σ, Runs intensity s → s.state = d → (d.status = .stopping true ↔
      d.status ≠ .stopped ∧ ShuttingDown s.log ∧ ¬ FailureStands s.log) := by
  refine ⟨?_, fun s hs heq => heq ▸ stopping_true_iff_of_runs hs⟩
  cases moves_exited h with
  | unknown he => simp [exit_eq_unknown_iff.mp he, eq_comm]
  | terminated he hk hs | ended he hk hs | exceeded he hk hs | crashed he hk hs =>
    have hat : d.childAt a ≠ none := by simp [← exit_eq_unknown_iff (n := n), he]
    refine ⟨?_, fun hnone => absurd hnone.1 hat⟩
    rintro ⟨-, hstates⟩
    dsimp only at hstates
    have hstatus := status_eq_of_modify_eq hk hstates
    simp [hs] at hstatus

/-- A second start is reported for the child, and the decider has that orphan stopped. -/
def orphanCalls : List (Call ℕ) := [.started 0 ⟨2⟩, .nextAction (some ⟨2⟩)]

/-- The supervisor is asked to quit before the orphan ends. -/
theorem exited_unchanged_iff_quit :
    ∃ (s : Run ℕ .allForOne) (d' : AllForOneDecider ℕ), Runs ⟨1, 10⟩ s ∧
      (∃ e ∈ s.log, ⟨2⟩ ∈ e.before.orphans ∧ e.output = some (.stop ⟨2⟩ none)) ∧
      s.state.exited ⟨2⟩ true 0 = some d' ∧
      d'.status = s.state.status ∧ d'.states = s.state.states := by
  obtain ⟨s, h, horphan, hat, hstopped, hdown, hfailed, d', hexit⟩ : ∃ s : Run ℕ .allForOne,
      Runs ⟨1, 10⟩ s ∧
      (∃ e ∈ s.log, ⟨2⟩ ∈ e.before.orphans ∧ e.output = some (.stop ⟨2⟩ none)) ∧
      s.state.childAt ⟨2⟩ = none ∧ s.state.status ≠ .stopped ∧ ShuttingDown s.log ∧
      ¬ FailureStands s.log ∧ ∃ d', s.state.exited ⟨2⟩ true 0 = some d' :=
    ⟨_, reaches_get (upCalls ++ orphanCalls ++ [.quit true]) rfl, by decide, rfl,
      by decide, by decide, by unfold FailureStands; decide, _, rfl⟩
  obtain ⟨hiff, hruns⟩ := exited_unchanged_iff hexit
  exact ⟨s, d', h, horphan, hexit, hiff.mpr ⟨hat, (hruns s h rfl).mpr ⟨hstopped, hdown, hfailed⟩⟩⟩

/-- In some run the decider has an orphan stopped, and the end of the orphan is the beginning of a
shutdown. -/
def ShutsDownByOrphan (σ : Strategy) : Prop :=
  ∃ (s : Run ℕ σ) (d' : Decider ℕ σ),
    Runs ⟨1, 10⟩ s ∧ (∃ e ∈ s.log, ⟨2⟩ ∈ e.before.orphans ∧ e.output = some (.stop ⟨2⟩ none)) ∧
      s.state.exited ⟨2⟩ true 0 = some d' ∧ s.state.status = .running ∧
        d'.status = .stopping true

/-- An orphan that shuts the supervisor down: a second start is reported for a running child, the
decider has the orphan stopped, and takes its end for a request to terminate. -/
theorem orphan_shuts_down : ShutsDownByOrphan .oneForOne ∧ ShutsDownByOrphan .allForOne := by
  have hshuts : ∀ σ, ShutsDownByOrphan σ := by
    intro σ
    cases σ <;> exact ⟨_, _, reaches_get (upCalls ++ orphanCalls) rfl, by decide, rfl,
      rfl, rfl⟩
  exact ⟨hshuts _, hshuts _⟩

end Decider

end Mm1
