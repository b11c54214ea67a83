import Mm1.Lib.Settle
import Mm1.Runtime.Pair

/-!
# No watch is forgotten

While the owner of a watch lives and holds it, a `Down` of the target is on its way to it, or the
target holds the watch once the messages on their way to the target are handled
(`WatchPending`). Every step of the system keeps this, whoever acts: `WatchPending.step`.

The watch may meet the target alive, gone in a running container, gone with its container, or
fail to be sent; in each case the second alternative turns into the first one.
-/

namespace Mm1

open Settle List

/-- How a message from the owner writes "the target holds the watch `ref`". -/
def writesWatch (ref : WatchRef) : SysMsg → Option Bool
  | .watch (.watch _ _ r) => if r = ref then some true else none
  | .watch (.unwatch _ _ r) => if r = ref then some false else none
  | .watch (.down _ _ _) => some false
  | _ => none

def SysMsg.IsDown : SysMsg → Prop
  | .watch (.down _ _ _) => True
  | _ => False

/-- The fork at this end holds the watch `ref` of the other one. -/
def Half.holds (h : Half) (ref : WatchRef) : Bool :=
  match h.rel with
  | none => false
  | some r => decide (ref ∈ r.watchedBy)

/-- The watch `ref` of `x` on `y` is on its way to be reported, or is going to be held by `y`. -/
def WatchPending (ref : WatchRef) (v : View) : Prop :=
  v.x.phase = .running → ∀ r, v.x.rel = some r → ref ∈ r.watches →
    (∃ m ∈ v.yx, m.IsDown) ∨ settle (writesWatch ref) (v.y.holds ref) v.xy = true

section Pair

variable {ι : Type*} {home : Address → ι} {s : Sys ι} {a : Action ι} {x y : Address}
  {v v' : View} {ref : WatchRef} {m : SysMsg} {r : Rel}

/-- Only a `Watch` sets the flag, and the answer to it is a `Down`. -/
private theorem exists_isDown_of_writesWatch (reason : ExitReason)
    (h : writesWatch ref m = some true) : ∃ m' ∈ (m.answer reason).toList, m'.IsDown := by
  unfold writesWatch at h
  split at h
  case h_1 => exact ⟨_, mem_singleton_self _, trivial⟩
  case h_2 => split at h <;> contradiction
  case h_3 => contradiction
  case h_4 => contradiction

/-- What a message says about a watch. -/
private theorem holds_recv {p : Phase} {d : Bool} (hroute : m.route = some (x, y)) :
    (⟨p, some (r.recv m), d⟩ : Half).holds ref =
      (writesWatch ref m).getD ((⟨p, some r, d⟩ : Half).holds ref) := by
  cases m with
  | kill | forkDone => contradiction
  | link l =>
    cases l with
    | connect | disconnect => rfl
    | exit _ _ reason => cases reason <;> rfl
  | watch w =>
    cases w with
    | watch _ _ ref' =>
      by_cases hne : ref' = ref
      · simp [Half.holds, Rel.recv, writesWatch, hne]
      · simp [Half.holds, Rel.recv, writesWatch, hne, Ne.symm hne]
    | unwatch _ _ ref' =>
      by_cases hne : ref' = ref
      · simp [Half.holds, Rel.recv, writesWatch, hne]
      · simp [Half.holds, Rel.recv, writesWatch, hne, Ne.symm hne]
    | down => simp [Half.holds, Rel.recv, writesWatch]

/-- A message other than `Down` leaves the fork's own watches. -/
private theorem watches_recv (href : ref ∈ (r.recv m).watches) : ref ∈ r.watches ∧ ¬ m.IsDown := by
  cases m with
  | kill | forkDone => exact ⟨href, id⟩
  | link l =>
    cases l with
    | connect | disconnect => exact ⟨href, id⟩
    | exit _ _ reason => cases reason <;> exact ⟨href, id⟩
  | watch w =>
    cases w with
    | watch | unwatch => exact ⟨href, id⟩
    | down => exact absurd href (Finset.notMem_empty ref)

/-- The owner acts. -/
private theorem WatchPending.owner (h : Acts home s a x y v v') (hv : WatchPending ref v) :
    WatchPending ref v' := by
  cases h with
  | phase hp hq =>
    intro hrun r hr href
    rcases hp with hp | ⟨-, hp⟩
    · exact hv (hp.symm.trans hrun) r hr href
    · exact nomatch (hp hrun).symm.trans hr
  | born =>
    intro _ r hr href
    cases hr
    exact absurd href (Finset.notMem_empty ref)
  | link hp hr | unlink hp hr =>
    intro hrun r' hr' href
    cases hr'
    refine (hv hrun _ hr href).imp_right fun h => ?_
    rw [settle_append, h]
    rfl
  | @watch r ref' hp hr =>
    intro hrun r' hr' href
    cases hr'
    by_cases hne : ref' = ref
    · refine .inr ?_
      simp [writesWatch, hne]
    · have href' := Finset.mem_of_mem_insert_of_ne href (Ne.symm hne)
      refine (hv hrun r hr href').imp_right fun h => ?_
      rw [settle_append, h]
      simp [writesWatch, hne]
  | @unwatch r ref' hp hr =>
    intro hrun r' hr' href
    cases hr'
    obtain ⟨hne, href⟩ := Finset.mem_erase.mp href
    refine (hv hrun r hr href).imp_right fun h => ?_
    rw [settle_append, h]
    simp [writesWatch, Ne.symm hne]
  | @recv r m rest hp hr hm hyx =>
    intro hrun r' hr' href
    cases hr'
    obtain ⟨href, hm'⟩ := watches_recv href
    refine (hv hrun r hr href).imp_left ?_
    rintro ⟨d, hd, hdown⟩
    rw [hyx] at hd
    rcases mem_cons.mp hd with rfl | hd
    · exact absurd hdown hm'
    · exact ⟨d, hd, hdown⟩
  | refuse hp hr =>
    intro _ r hr' _
    exact nomatch hr.symm.trans hr'
  | drain hp =>
    intro hrun
    exact nomatch hp.symm.trans hrun
  | gone =>
    intro _ r hr _
    contradiction
  | @lost m q o q' o' hm hxy hyx =>
    intro hrun r hr href
    rcases hv hrun r hr href with ⟨d, hd, hdown⟩ | h
    · refine .inl ⟨d, ?_, hdown⟩
      rw [hyx] at hd
      simp only [mem_append] at hd ⊢
      exact hd.imp_right .inr
    · by_cases hw : writesWatch ref m = some true
      · obtain ⟨d, hd, hdown⟩ := exists_isDown_of_writesWatch .linkDown hw
        exact .inl ⟨d, mem_append_right _ (mem_append_left _ hd), hdown⟩
      · rw [hxy] at h
        exact .inr (settle_erase hw h)
  | @terminate q o hxy ha =>
    intro hrun r hr href
    refine (hv hrun r hr href).imp_right fun h => ?_
    rw [hxy] at h
    simpa [writesWatch] using h

private theorem exists_isDown_append {l l' : List SysMsg} (h : ∃ m ∈ l, m.IsDown) :
    ∃ m ∈ l ++ l', m.IsDown := by
  obtain ⟨d, hd, hdown⟩ := h
  exact ⟨d, mem_append_left _ hd, hdown⟩

private theorem holds_of_rel {h : Half} (hr : h.rel = some r) :
    h.holds ref = decide (ref ∈ r.watchedBy) := by
  simp only [Half.holds, hr]

/-- A message is answered and not handled: if it was the `Watch`, the answer is a `Down`. -/
private theorem down_of_answer (reason : ExitReason) {holds : Bool} {q rest out : List SysMsg}
    (hq : q = m :: rest)
    (h : (∃ d ∈ out, d.IsDown) ∨ settle (writesWatch ref) holds q = true) :
    (∃ d ∈ out ++ (m.answer reason).toList, d.IsDown) ∨
      settle (writesWatch ref) holds rest = true := by
  rcases h with hdown | h
  · exact .inl (exists_isDown_append hdown)
  · by_cases hw : writesWatch ref m = some true
    · obtain ⟨d, hd, hdown⟩ := exists_isDown_of_writesWatch reason hw
      exact .inl ⟨d, mem_append_right _ hd, hdown⟩
    · rw [hq] at h
      exact .inr (settle_erase (l := []) hw h)

/-- The target acts. -/
private theorem WatchPending.target (h : Acts home s a y x v v') (hv : WatchPending ref v.swap) :
    WatchPending ref v'.swap := by
  cases h with
  | phase hp hq =>
    intro hrun r hr href
    rcases hq with hq | ⟨-, hq⟩
    · exact hv (hq.symm.trans hrun) r hr href
    · exact nomatch (hq hrun).symm.trans hr
  | born hp hr =>
    intro hrun r hr' href
    refine (hv hrun r hr' href).imp_right fun h => ?_
    have hholds : v.x.holds ref = false := by simp only [Half.holds, hr]
    rw [View.swap, hholds] at h
    exact h
  | link hp hr | unlink hp hr | watch hp hr | unwatch hp hr =>
    intro hrun r' hr' href
    refine (hv hrun r' hr' href).imp exists_isDown_append fun h => ?_
    rw [View.swap, holds_of_rel hr] at h
    exact h
  | @recv r m rest hp hr hm hyx =>
    intro hrun r' hr' href
    refine (hv hrun r' hr' href).imp_right fun h => ?_
    have hholds : v.x.holds ref = (⟨v.x.phase, some r, v.x.ended⟩ : Half).holds ref := by
      rw [← hr]
    rw [View.swap, hyx, settle_cons, hholds, ← holds_recv hm] at h
    exact h
  | refuse hp hr hm hyx =>
    intro hrun r' hr' href
    exact down_of_answer _ hyx (hv hrun r' hr' href)
  | drain hp hm hyx =>
    intro hrun r' hr' href
    exact down_of_answer _ hyx (hv hrun r' hr' href)
  | @gone r b out hp hr hout =>
    intro hrun r' hr' href
    rcases hv hrun r' hr' href with hdown | h
    · exact .inl (exists_isDown_append hdown)
    · by_cases hmem : ref ∈ r.watchedBy
      · obtain ⟨refs, -, rfl⟩ := hout
        rw [if_neg (Finset.ne_empty_of_mem hmem)]
        exact .inl ⟨sysWatchDownMessage b y x, by simp [View.swap], trivial⟩
      · rw [View.swap, holds_of_rel hr, decide_eq_false hmem] at h
        exact .inr h
  | lost _ _ _ hp =>
    intro hrun
    exact absurd hrun hp.1
  | @terminate q o hxy ha =>
    intro hrun r hr href
    refine (hv hrun r hr href).imp_left ?_
    rintro ⟨d, hd, hdown⟩
    rw [View.swap, hxy] at hd
    refine ⟨d, ?_, hdown⟩
    simp only [View.swap, mem_append, mem_cons] at hd ⊢
    exact hd.imp_right .inr

/-- **No watch is forgotten**: a step keeps every watch pending. -/
theorem WatchPending.step [DecidableEq ι] {s' : Sys ι} (hw : Sys.Wf home s) (hxy : x ≠ y)
    (h : s.step home a = some s') (hv : WatchPending ref (s.view home x y)) :
    WatchPending ref (s'.view home x y) :=
  (Sys.view_step hw hxy h).keeps hv WatchPending.owner WatchPending.target

end Pair

end Mm1
