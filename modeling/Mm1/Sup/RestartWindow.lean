import Mathlib.Algebra.Group.Nat.Defs
import Mathlib.Data.List.Induction
import Mm1.Common.Basic

/-!
# Restart intensity

`report_exit` counts the exits that were reported within a time. It keeps the times of the reports,
and drops those that are too old each time it is called. What is too old is told by
`now - within`; where this is too early to be represented, `now` is taken instead, and all reports
but those of this very moment are dropped. They are missing then and later on.

* `filter_reports`: what is left of a sequence of reports;
* `reportExit_exact_iff`: when `report_exit` counts right;
* `CountsRight`, `Tolerates`: conditions on a sequence of reports, for the users of `report_exit`;
* `reportExit_forgets`: two exits in an endless window are counted as one.
-/

namespace Mm1

open List

/-- How many restarts are tolerated in which time. -/
structure RestartIntensity where
  maxRestarts : ℕ
  within : ℕ
  deriving DecidableEq

/-- The exits that were reported lately. -/
abbrev RestartStats := List Instant

/-- The error of `report_exit`. -/
structure MaxRestartIntensityReached where
  deriving DecidableEq

/-- Report an exit that calls for a restart. -/
def RestartIntensity.reportExit (self : RestartIntensity) (stats : RestartStats) (now : Instant) :
    RestartStats × Except MaxRestartIntensityReached Unit :=
  let cutoff := (now.checkedSub self.within).getD now
  let stats := stats.filter (cutoff ≤ ·) ++ [now]
  (stats, if self.maxRestarts < stats.length then .error {} else .ok ())

/-- `RestartIntensity::new_stats` -/
def RestartIntensity.newStats (_self : RestartIntensity) : RestartStats := []

namespace RestartIntensity

variable {intensity : RestartIntensity} {times earlier : List Instant} {now t : Instant}

/-- The statistics after a sequence of reports. -/
def reports (self : RestartIntensity) (times : List Instant) : RestartStats :=
  times.foldl (fun stats now => (self.reportExit stats now).1) self.newStats

/-- There was a later report whose window begins too early to be represented. -/
def Dropped (self : RestartIntensity) (times : List Instant) (t : Instant) : Prop :=
  ∃ t' ∈ times, t < t' ∧ t' < self.within

instance : Decidable (intensity.Dropped times t) := inferInstanceAs (Decidable (∃ t' ∈ times, _))

/-- The first time that is not too old. -/
def cutoff (self : RestartIntensity) (now : Instant) : Instant :=
  (now.checkedSub self.within).getD now

private theorem reports_concat : intensity.reports (times ++ [now]) =
    (intensity.reports times).filter (intensity.cutoff now ≤ ·) ++ [now] := by
  rw [reports, foldl_append]
  rfl

private theorem dropped_concat (times : List Instant) : intensity.Dropped (times ++ [now]) t ↔
    intensity.Dropped times t ∨ t < now ∧ now < intensity.within := by
  simp only [Dropped, mem_append, mem_singleton, or_and_right, exists_or, exists_eq_left]

/-- What a report keeps of those that were not dropped before. -/
private theorem cutoff_le_iff : intensity.cutoff now ≤ t ↔
    now - t ≤ intensity.within ∧ ¬ (t < now ∧ now < intensity.within) := by
  rw [cutoff, Instant.checkedSub]
  unfold Instant at *
  split
  case isTrue hwithin =>
    rw [Option.getD_some]
    omega
  case isFalse hwithin =>
    rw [Option.getD_none]
    omega

/-- **What is left of a sequence of reports** when there is another one. -/
theorem filter_reports (h : times.Pairwise (· ≤ ·)) (hle : ∀ t ∈ times, t ≤ now) :
    (intensity.reports times).filter (intensity.cutoff now ≤ ·) =
      times.filter fun t =>
        now - t ≤ intensity.within ∧ ¬ intensity.Dropped (times ++ [now]) t := by
  induction times using List.reverseRecOn generalizing now with
  | nil => rfl
  | append_singleton times last ih =>
    obtain ⟨hsorted, -, hlast⟩ := pairwise_append.mp h
    have hlast : ∀ t ∈ times, t ≤ last := fun t ht => hlast t ht last (mem_singleton_self _)
    have hnow : last ≤ now := hle last (mem_append_right _ (mem_singleton_self _))
    rw [reports_concat, ih hsorted hlast, filter_append, filter_append, filter_filter]
    refine congrArg₂ _ (filter_congr fun t ht => ?_) (filter_congr fun t ht => ?_)
    · -- what is in the window now was in it before
      have hwindow : now - t ≤ intensity.within → last - t ≤ intensity.within :=
        (Nat.sub_le_sub_right hnow t).trans
      rw [← Bool.decide_and, decide_eq_decide, cutoff_le_iff, dropped_concat (times ++ [last])]
      tauto
    · obtain rfl := mem_singleton.mp ht
      have hkept : ¬ intensity.Dropped (times ++ [t]) t := by
        rintro ⟨t', ht', hlt, -⟩
        rcases mem_append.mp ht' with ht' | ht'
        · exact absurd (hlast t' ht') (not_le.mpr hlt)
        · exact absurd (mem_singleton.mp ht') hlt.ne'
      rw [decide_eq_decide, cutoff_le_iff, dropped_concat (times ++ [t])]
      tauto

/-- How many of the reports are within the time. -/
def inWindow (self : RestartIntensity) (times : List Instant) (now : Instant) : ℕ :=
  times.countP fun t => now - t ≤ self.within

/-- How many of them have not been dropped. -/
def keptInWindow (self : RestartIntensity) (times : List Instant) (now : Instant) : ℕ :=
  times.countP fun t => now - t ≤ self.within ∧ ¬ self.Dropped times t

theorem keptInWindow_le (times : List Instant) (now : Instant) :
    intensity.keptInWindow times now ≤ intensity.inWindow times now :=
  countP_mono_left fun t _ ht => by simpa using (of_decide_eq_true ht).1

/-- **What `report_exit` counts.** -/
theorem reportExit_eq_error_iff (h : (earlier ++ [now]).Pairwise (· ≤ ·)) :
    (intensity.reportExit (intensity.reports earlier) now).2 = .error {} ↔
      intensity.maxRestarts < intensity.keptInWindow (earlier ++ [now]) now := by
  obtain ⟨hsorted, -, hle⟩ := pairwise_append.mp h
  have hle : ∀ t ∈ earlier, t ≤ now := fun t ht => hle t ht now (mem_singleton_self _)
  have hself : ¬ intensity.Dropped (earlier ++ [now]) now := by
    rintro ⟨t', ht', hlt, -⟩
    rcases mem_append.mp ht' with ht' | ht'
    · exact absurd (hle t' ht') (not_le.mpr hlt)
    · exact absurd (mem_singleton.mp ht') hlt.ne'
  have hlength : ((intensity.reports earlier).filter (intensity.cutoff now ≤ ·) ++ [now]).length =
      intensity.keptInWindow (earlier ++ [now]) now := by
    rw [filter_reports hsorted hle, keptInWindow, countP_append, length_append,
      countP_eq_length_filter, countP_singleton, if_pos]
    · rfl
    · exact decide_eq_true ⟨by rw [Nat.sub_self]; exact Nat.zero_le _, hself⟩
  rw [← hlength, reportExit]
  dsimp only
  rw [← cutoff]
  split
  case isTrue hlt => exact iff_of_true rfl hlt
  case isFalse hle => exact iff_of_false (fun heq => by contradiction) hle

/-- None of the reports to come is one too many. -/
def Tolerates (self : RestartIntensity) : (past : List Instant) → List Instant → Prop
  | _, [] => True
  | past, now :: rest =>
    self.keptInWindow (past ++ [now]) now ≤ self.maxRestarts ∧ self.Tolerates (past ++ [now]) rest

/-- The reports to come are counted right: as long as there are no more within the time than there
may be, and at the first one that is one too many, there are too many even without those that have
been dropped. -/
def CountsRight (self : RestartIntensity) : (past : List Instant) → List Instant → Prop
  | _, [] => True
  | past, now :: rest =>
    self.maxRestarts < self.keptInWindow (past ++ [now]) now ∨
      self.inWindow (past ++ [now]) now ≤ self.maxRestarts ∧ self.CountsRight (past ++ [now]) rest

instance decidableCountsRight : ∀ past times, Decidable (intensity.CountsRight past times)
  | _, [] => inferInstanceAs (Decidable True)
  | past, now :: rest =>
    have := decidableCountsRight (past ++ [now]) rest
    inferInstanceAs (Decidable (_ ∨ _ ∧ _))

/-- **When `report_exit` counts right**: no more reports are within the time than there may be, or
there are more even without those that have been dropped. -/
theorem reportExit_exact_iff (intensity : RestartIntensity) (earlier : List Instant) (now : Instant)
    (h : (earlier ++ [now]).Pairwise (· ≤ ·)) :
    ((intensity.reportExit (intensity.reports earlier) now).2 = .error {} ↔
        intensity.maxRestarts < intensity.inWindow (earlier ++ [now]) now) ↔
      intensity.inWindow (earlier ++ [now]) now ≤ intensity.maxRestarts ∨
        intensity.maxRestarts < intensity.keptInWindow (earlier ++ [now]) now := by
  rw [reportExit_eq_error_iff h]
  have hle : _ ≤ intensity.inWindow _ _ := keptInWindow_le (earlier ++ [now]) now
  omega

theorem reportExit_exact_thirty_seconds :
    (∀ t ∈ [100, 110], ¬ (⟨1, 30⟩ : RestartIntensity).Dropped [100, 110, 120] t) ∧
      ((reportExit ⟨1, 30⟩ (reports ⟨1, 30⟩ [100, 110]) 120).2 = .error {} ↔
        1 < inWindow ⟨1, 30⟩ [100, 110, 120] 120) :=
  ⟨by decide, (reportExit_exact_iff ⟨1, 30⟩ [100, 110] 120 (by decide)).mpr (by decide)⟩

/-- `Duration::MAX`, in nanoseconds. -/
def durationMax : ℕ := (2 ^ 64 - 1) * 10 ^ 9 + 999999999

/-- **An exit is forgotten.** One restart is tolerated, at any time, and there are two of them, a
second apart. -/
theorem reportExit_forgets :
    ∃ first second : Instant, first < second ∧ second < durationMax ∧
      inWindow ⟨1, durationMax⟩ [first, second] second = 2 ∧
      (reportExit ⟨1, durationMax⟩ (reports ⟨1, durationMax⟩ [first]) second).2 = .ok () :=
  ⟨2 ^ 63 * 10 ^ 9, (2 ^ 63 + 1) * 10 ^ 9, by decide, by decide, by decide, by decide⟩

end RestartIntensity

end Mm1
