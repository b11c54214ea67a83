import Mm1.Sup.Restart

/-!
# Temporary children in a group restart

`AllForOneDecider` leaves a temporary child stopped when it has ended by itself. When the child is
stopped because a sibling has crashed, its target stays `Running`, and it is started again with the
group. The same happens to a child whose start has failed, if a sibling crashes before the
supervisor is down.

* `once_of_moves`: as long as a temporary child is meant to run, it was started once for each time
  that it was interrupted, and once more if it is not stopped now;
* `starts_temporary_allForOne`: it is started at most once if it was never interrupted, and a
  `Start` is the first one exactly if there was no interruption before. `restarted_with_group` is a
  temporary child that is started twice.
-/

namespace Mm1

namespace Decider

open History

/-- The child ends after it was told to stop, or it could not be started. -/
def Deed.isInterruption : Deed → Bool
  | .terminated _ | .failed => true
  | _ => false

/-- How often a temporary child was started, given how often it was interrupted. -/
structure Once (starts interruptions : ℕ) (s : State .allForOne) : Prop where
  le : starts ≤ interruptions + 1
  running : s.target = .running → starts = interruptions + if s.status = .stopped then 0 else 1

/-- A child that is there, or is not there yet. -/
def OnceIfAdded (starts interruptions : ℕ) : Option (State .allForOne) → Prop
  | none => starts = 0 ∧ interruptions = 0
  | some s => s.childType = .temporary → Once starts interruptions s

/-- A child that was not stopped and is not stopped now. -/
private theorem Once.of_busy {m n : ℕ} {s s' : State .allForOne} (h : Once m n s)
    (ht : s'.target = s.target) (hs : s.status ≠ .stopped) (hs' : s'.status ≠ .stopped) :
    Once m n s' := by
  refine ⟨h.le, fun hrun => ?_⟩
  rw [h.running (ht.symm.trans hrun), if_neg hs, if_neg hs']

/-- **One step.** -/
theorem once_of_moves {sup : SupStatus .allForOne} {δ : Deed} {m n : ℕ}
    {x x' : Option (State .allForOne)} (h : State.Moves sup x δ x') (hx : OnceIfAdded m n x) :
    OnceIfAdded (m + if δ = .start then 1 else 0) (n + if δ.isInterruption then 1 else 0) x' := by
  cases h with
  | none => simpa [Deed.isInterruption] using hx
  | added =>
    obtain ⟨rfl, rfl⟩ := hx
    exact fun _ => ⟨by simp [Deed.isInterruption], by simp [Deed.isInterruption]⟩
  | dropped hs => simp [State.isGone_allForOne] at hs
  | crashed _ hn =>
    intro htemp
    simp only at htemp
    simp [htemp, ChildType.isAcceptable] at hn
  | started hs | stop hs =>
    intro htemp
    exact (hx htemp).of_busy rfl (by simp [hs]) (by simp)
  | ended =>
    intro htemp
    exact ⟨(hx htemp).le, by simp⟩
  | terminated hs =>
    intro htemp
    obtain ⟨hle, hrun⟩ := hx htemp
    refine ⟨Nat.le_succ_of_le hle, fun ht => ?_⟩
    have hcount := hrun ht
    simp only [hs, reduceCtorEq, if_false] at hcount
    simpa [Deed.isInterruption] using hcount
  | @failed _ _ s =>
    intro htemp
    rw [State.childType_fail] at htemp
    obtain ⟨hle, hrun⟩ := hx htemp
    refine ⟨Nat.le_succ_of_le hle, fun ht => ?_⟩
    rw [State.fail] at ht ⊢
    split at ht
    case h_1 hs =>
      have hcount := hrun ht
      simp only [hs, reduceCtorEq, if_false] at hcount
      simpa [hs, Deed.isInterruption] using hcount
    case h_2 => contradiction
  | start _ hs ht =>
    intro htemp
    have hcount := (hx htemp).running ht
    simp only [hs, if_true, Nat.add_zero] at hcount
    subst hcount
    exact ⟨by simp [Deed.isInterruption], by simp [Deed.isInterruption]⟩

variable {K : Type*} [DecidableEq K] {σ : Strategy} {intensity : RestartIntensity} {k : K}

/-- How often `Start` was returned for the child. -/
def starts (k : K) (log : List (Event K σ)) : ℕ := log.countP fun e => deed k e = .start

/-- How often the child was interrupted. -/
def interruptions (k : K) (log : List (Event K σ)) : ℕ :=
  log.countP fun e => (deed k e).isInterruption

private theorem once_of_runs {s : Run K .allForOne} (h : Runs intensity s) :
    OnceIfAdded (starts k s.log) (interruptions k s.log) (s.state.states.lookup k) := by
  refine log_invariant (P := fun d log =>
    OnceIfAdded (starts k log) (interruptions k log) (d.states.lookup k)) h ?_ ?_
  · exact ⟨rfl, rfl⟩
  · intro d d' log c out ih _ hcall
    have hnext := once_of_moves (state_moves_of_call k hcall) ih
    simpa only [starts, interruptions, List.countP_cons, decide_eq_true_eq] using hnext

/-- **The starts of a temporary child of `AllForOneDecider`.** In every run, a temporary child that
was never interrupted was started at most once. A `Start` that is returned for it is the first one
if and only if it was not interrupted before: it has not ended after it was told to stop, and its
start has not failed. -/
theorem starts_temporary_allForOne {s : Run K .allForOne} (h : Runs intensity s)
    {c : State .allForOne} (hk : s.state.states.lookup k = some c)
    (hc : c.childType = .temporary) :
    (interruptions k s.log = 0 → starts k s.log ≤ 1) ∧
      ∀ (first : Option Address) (d' : AllForOneDecider K),
        s.state.nextAction first = some (d', some (.start k)) →
          (starts k s.log = 0 ↔ interruptions k s.log = 0) := by
  have honce := once_of_runs (k := k) h
  rw [hk] at honce
  obtain ⟨hle, hrun⟩ := honce hc
  refine ⟨fun hnone => by simpa [hnone] using hle, fun first d' hstart => ?_⟩
  cases moves_nextAction hstart with
  | start _ _ hk' hs ht =>
    obtain ⟨hk', -⟩ := lookup_of_retained hk'
    obtain rfl := Option.some.inj (hk.symm.trans hk')
    have hcount := hrun ht
    simp only [hs, if_true, Nat.add_zero] at hcount
    rw [hcount]

/-- A temporary child and a permanent one are running, and the permanent one has crashed. -/
def crashCalls : List (Call ℕ) :=
  [.add 0 .temporary, .add 1 .permanent, .nextAction none, .started 0 ⟨1⟩, .nextAction none,
    .started 1 ⟨2⟩, .nextAction none, .exited ⟨2⟩ false 0]

theorem starts_temporary_allForOne_crash :
    ∃ s : Run ℕ .allForOne, Runs ⟨1, 10⟩ s ∧ s.state.status = .restarting ∧
      interruptions 0 s.log = 0 ∧ starts 0 s.log ≤ 1 := by
  have h : Runs ⟨1, 10⟩ (_ : Run ℕ .allForOne) := Transition.reaches_get crashCalls rfl
  exact ⟨_, h, rfl, by decide, (starts_temporary_allForOne h rfl rfl).1 (by decide)⟩

/-- **A temporary child that is started twice.** It is stopped because its sibling has crashed, and
is started again with the group. -/
theorem restarted_with_group :
    ∃ s : Run ℕ .allForOne, Runs ⟨1, 10⟩ s ∧
      s.state.states.entries =
        [(0, ⟨.temporary, .starting, .running⟩), (1, ⟨.permanent, .stopped, .running⟩)] ∧
      starts 0 s.log = 2 :=
  ⟨_, Transition.reaches_get (crashCalls ++ [.nextAction none, .exited ⟨1⟩ true 0, .nextAction none,
    .nextAction none]) rfl, rfl, by decide⟩

end Decider

end Mm1
