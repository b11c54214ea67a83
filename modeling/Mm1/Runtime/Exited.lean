import Mm1.Runtime.LinkExit

/-!
# Exits that are not reported

A trapping fork is told `Exited` when it handles an `Exit` of a fork it is linked to. This module
follows one fork `f` from before it is added until after its context is dropped, and says when
none of its `Exit`s can be reported to another fork `z`, say the main fork of an actor that is
started by `f`:

* `Unborn`: `f` is not added yet, and the actor of `z` does not exist;
* `Open`: the context of `f` is alive. No `Exit` of `f` is on its way to `z`;
* `Harmless`: each `Exit` on its way from `f` to `z` comes when `z` is not linked to `f`, or after
  the actor of `z` has left its main loop.

`Open.harmless` is the passage from the second to the third: when the context of `f` is dropped,
the messages of `f` must not leave `z` linked to it.
-/

namespace Mm1

open Settle Option List Container

/-- An `Exit` of any kind. -/
def SysMsg.isLinkExit : SysMsg → Bool
  | .link (.exit _ _ _) => true
  | _ => false

/-- A request to terminate. -/
def SysMsg.isTerminate : SysMsg → Bool
  | .link (.exit _ _ .terminate) => true
  | _ => false

/-! ### When `Exited` is reported -/

variable {m : SysMsg} {reason : ExitReason} {p : Phase} {h : Half}

namespace Container

variable {ι : Type*} {home : Address → ι} {c : ι} {k k' : Container} {a : TaskAction}
  {x y : Address} {b : Bool}

/-- The `Exit` that a report is about. -/
def Reports (k : Container) (y x : Address) (b : Bool) : Prop :=
  k.phase = .running ∧ ∃ e reason, k.jobEntries y = some e ∧
    k.rxSystem.head? = some (.link (.exit x y reason)) ∧ b = (reason == .normal) ∧
    (reason = .terminate ∨ x ∈ e.linkedTo)

/-- Where a told exit comes from. -/
private theorem exited_of_recvEvents {e : JobEntry} {trapExit : Bool} {o : Order}
    (h : .exited y x b ∈ e.recvEvents trapExit o m) :
    ∃ reason, m = .link (.exit x y reason) ∧ b = (reason == .normal) ∧
      (reason = .terminate ∨ x ∈ e.linkedTo) := by
  unfold JobEntry.recvEvents at h
  split at h
  case h_1 => simp at h
  case h_2 sender receiver reason =>
    simp only [mem_cons, reduceCtorEq, false_or] at h
    split at h
    case isFalse => simp at h
    case isTrue hcond =>
      cases mem_singleton.mp h
      simp only [Bool.and_eq_true, Bool.or_eq_true, beq_iff_eq, decide_eq_true_eq] at hcond
      exact ⟨reason, rfl, rfl, hcond.2⟩
  case h_3 => simp at h
  case h_4 => simp at h

/-- An actor tells of an exit only if it was told. -/
private theorem exited_of_act [DecidableEq ι] (hw : Wf home c k) (h : k.act home c a = some k')
    (hev : .exited y x b ∈ k'.log) : .exited y x b ∈ k.log ∨ k.Reports y x b := by
  rcases act_spec hw h with hi | ⟨f, inp, e', out, events, -, hfocus, hstep⟩
  · left
    generalize hlog : k'.log = log at hev
    cases hlog ▸ hi.log with
    | none => exact hev
    | linked | unwatched => simpa using hev
  · rw [hfocus.log] at hev
    refine (mem_append.mp hev).imp_right fun hev => ?_
    cases hstep with
    | create => simp at hev
    | forkAdded | unlink | refuse | drain => exact absurd hev not_mem_nil
    | link | watch | unwatch | done | tornDown => simp at hev
    | @recv m e o _ _ hq hp he =>
      obtain ⟨z, hz⟩ := hfocus.inpRoute m mem_cons_self
      obtain ⟨reason, rfl, hb, hlinked⟩ := exited_of_recvEvents hev
      cases hz
      exact ⟨hp, e, reason, he, hq, hb, hlinked⟩

end Container

namespace Sys

variable {ι : Type*} [DecidableEq ι] {home : Address → ι} {s s' : Sys ι} {act : Action ι}
  {f z : Address} {b : Bool}

theorem exited_of_step (hw : Wf home s) (hs : s.step home act = some s')
    (hev : .exited z f b ∈ (s' (home z)).log) :
    .exited z f b ∈ (s (home z)).log ∨ (s (home z)).Reports z f b := by
  rcases container_of_step hs (home z) with ⟨t, -, hk⟩ | ⟨q, o, hk, -⟩
  · exact exited_of_act (hw _) hk hev
  · rw [hk] at hev
    exact .inl hev

end Sys

/-! ### Before the fork is added -/

/-- The fork `f` is not added yet, and the actor of `z` does not exist. -/
structure Unborn {ι : Type*} (home : Address → ι) (f z : Address) (s : Sys ι) : Prop where
  absent : (s (home z)).phase = .absent
  entry : (s (home f)).jobEntries f = none
  context : f ∉ (s (home f)).contexts
  done : .forkDone f ∉ (s (home f)).rxSystem
  silent : s.flight home f z = []
  request : ∀ m ∈ s.flight home z f, ¬ m.IsRequest

/-- The context of `f` is alive, and nothing says to `z` that it has ended. -/
structure Open {ι : Type*} (home : Address → ι) (f z : Address) (s : Sys ι) : Prop where
  entry : (s (home f)).jobEntries f ≠ none
  context : f ∈ (s (home f)).contexts
  done : .forkDone f ∉ (s (home f)).rxSystem
  phase : (s (home f)).phase = .running ∨ ∃ b, (s (home f)).phase = .stopping b
  mild : ∀ m ∈ s.flight home f z, m.isLinkExit = false

/-- A `Kill` comes before each `Exit` of `f` to `z`. -/
def KillFirst (f z : Address) (q : List SysMsg) : Prop :=
  ∃ pre post, q = pre ++ .kill :: post ∧ ∀ m ∈ pre, m.route = some (f, z) → m.isLinkExit = false

/-- No `Exit` of `f` is going to be reported to `z`. -/
def Harmless {ι : Type*} (home : Address → ι) (f z : Address) (s : Sys ι) : Prop :=
  (s (home z)).phase.result ≠ none ∨ KillFirst f z (s (home z)).rxSystem ∨
    Tame writesLink SysMsg.isExit (s.half home z f).linked (s.flight home f z) ∧
      ∀ m ∈ s.flight home f z, m.isTerminate = false

section Steps

open Sys

variable {ι : Type*} [DecidableEq ι] {home : Address → ι} {s s' : Sys ι} {act : Action ι}
  {f z : Address} {v v' : View} {b : Bool}

omit [DecidableEq ι] in
/-- Nothing is reported as long as an `Exit` is harmless. -/
theorem Harmless.not_reports (h : Harmless home f z s) : ¬ (s (home z)).Reports z f b := by
  rintro ⟨hp, e, reason, he, hhead, -, hlinked⟩
  obtain ⟨rest, hq⟩ := List.head?_eq_some_iff.mp hhead
  rcases h with hleft | ⟨pre, post, hsplit, hpre⟩ | ⟨htame, hterm⟩
  · rw [hp] at hleft
    exact hleft rfl
  · -- the head of the queue is in front of the `Kill`
    rw [hq] at hsplit
    cases pre with
    | nil => simp at hsplit
    | cons m pre =>
      obtain ⟨rfl, -⟩ := List.cons.inj hsplit
      exact Bool.false_ne_true (hpre _ mem_cons_self rfl).symm
  · have hflight : s.flight home f z = .link (.exit f z reason) ::
        (between f z rest ++ between f z (s (home f)).outbox) := by
      rw [flight, hq, between_cons_of_route rfl]
      rfl
    have hne : reason ≠ .terminate := by
      rintro rfl
      have hmem : .link (.exit f z .terminate) ∈ s.flight home f z := by
        rw [hflight]
        exact mem_cons_self
      exact Bool.false_ne_true (hterm _ hmem).symm
    rw [hflight] at htame
    have hunlinked : (s.half home z f).linked = false := by
      refine htame.1 ?_
      cases reason with
      | terminate => exact absurd rfl hne
      | normal | linkDown => rfl
    have hrel : (s.half home z f).rel = some (e.rel f) := by rw [half, he, map_some]
    rw [Half.linked_of_some hrel] at hunlinked
    exact absurd (JobEntry.rel_linked.mpr (hlinked.resolve_left hne))
      (by rw [hunlinked]; exact Bool.false_ne_true)

omit [DecidableEq ι] in
theorem Open.not_reports (h : Open home f z s) : ¬ (s (home z)).Reports z f b := by
  rintro ⟨-, e, reason, -, hhead, -⟩
  have hmem : .link (.exit f z reason) ∈ s.flight home f z :=
    mem_append_left _ (mem_between.mpr ⟨mem_of_mem_head? hhead, rfl⟩)
  exact nomatch h.mild _ hmem

omit [DecidableEq ι] in
theorem Unborn.not_reports (h : Unborn home f z s) : ¬ (s (home z)).Reports z f b :=
  fun hr => nomatch h.absent.symm.trans hr.1

/-! ### The steps of the system -/

private theorem SysMsg.answer_of_not_isRequest (h : ¬ m.IsRequest) : m.answer reason = none := by
  unfold SysMsg.answer
  split
  case h_1 | h_2 => exact absurd trivial h
  case h_3 => rfl

/-- No `ForkDone` of `f` is queued as long as its context is not dropped. -/
private theorem done_of_step (hw : Wf home s) (hs : s.step home act = some s')
    (hdrop : act.dropped ≠ some f) (h : .forkDone f ∉ (s (home f)).rxSystem) :
    .forkDone f ∉ (s' (home f)).rxSystem := by
  rcases container_of_step hs (home f) with ⟨t, rfl, hk⟩ | ⟨q, o, hk, hq⟩
  · rcases (flow_of_act (hw _) hk).queue with ⟨o, m, -, hpop⟩ | ⟨q, happ, hq⟩
    · exact fun hmem => h (by rw [hpop]; exact mem_cons_of_mem _ hmem)
    · rw [happ]
      refine fun hmem => (mem_append.mp hmem).elim h fun hmem => hdrop ?_
      rcases hq f hmem with rfl | rfl <;> rfl
  · rw [hk]
    exact fun hmem => (mem_append.mp hmem).elim h (hq f)

theorem context_of_step (hw : Wf home s) (hs : s.step home act = some s')
    (hnew : act.newFork ≠ some f) (h : f ∉ (s (home f)).contexts) :
    f ∉ (s' (home f)).contexts := by
  rcases container_of_step hs (home f) with ⟨t, rfl, hk⟩ | ⟨q, o, hk, -⟩
  · rw [(flow_of_act (hw _) hk).contexts f]
    rintro (⟨hmem, -⟩ | rfl)
    · exact h hmem
    · exact hnew rfl
  · rwa [hk]

/-- The two forks while neither of them is there. -/
private def Silent (v : View) : Prop :=
  v.x.rel = none ∧ v.y.rel = none ∧ v.yx = [] ∧ ∀ m ∈ v.xy, ¬ m.IsRequest

omit [DecidableEq ι] in
/-- Steps other than those of the task of `z`. -/
private theorem Silent.acts_absent (hv : Silent v) (h : Acts home s act z f v v')
    (htask : ∀ t, act ≠ .task (home z) t) : Silent v' := by
  obtain ⟨hx, hy, hyx, hreq⟩ := hv
  cases h with
  | phase => exact ⟨hx, hy, hyx, hreq⟩
  | born _ _ _ _ ha =>
    rcases ha with ha | ⟨l, o, ha, -⟩
    · exact absurd ha (htask _)
    · exact absurd ha (htask _)
  | link _ hr | unlink _ hr | watch _ hr | unwatch _ hr | recv _ hr | gone _ hr =>
    exact nomatch hx.symm.trans hr
  | refuse _ _ _ hyx' | drain _ _ hyx' => exact nomatch hyx.symm.trans hyx'
  | @lost m q o q' o' _ hxy hyx' =>
    rw [hxy] at hreq
    obtain ⟨rfl, rfl⟩ := append_eq_nil_iff.mp (hyx'.symm.trans hyx)
    refine ⟨hx, hy, ?_, fun m' hm' => hreq m' ?_⟩
    · rw [SysMsg.answer_of_not_isRequest (hreq m (by simp))]
      rfl
    · exact (mem_append.mp hm').elim (mem_append_left _)
        fun hm' => mem_append_right _ (mem_cons_of_mem _ hm')
  | @terminate q o hxy =>
    rw [hxy] at hreq
    refine ⟨hx, hy, hyx, fun m hm => ?_⟩
    rcases mem_append.mp hm with hm | hm
    · exact hreq m (mem_append_left _ hm)
    · rcases mem_cons.mp hm with rfl | hm
      · exact id
      · exact hreq m (mem_append_right _ hm)

omit [DecidableEq ι] in
/-- Steps that do not create `f`. -/
private theorem Silent.acts_unborn (hv : Silent v.swap) (h : Acts home s act f z v v')
    (hnew : act.newFork ≠ some f) (hexit : act.exits ≠ some (f, z)) : Silent v'.swap := by
  obtain ⟨hy, hx, hxy, hreq⟩ := hv
  cases h with
  | phase => exact ⟨hy, hx, hxy, hreq⟩
  | born _ _ _ _ ha =>
    rcases ha with rfl | ⟨l, o, rfl, -⟩
    · exact absurd rfl hnew
    · exact absurd rfl hnew
  | link _ hr | unlink _ hr | watch _ hr | unwatch _ hr | recv _ hr | gone _ hr =>
    exact nomatch (show v.x.rel = none from hx).symm.trans hr
  | @refuse m rest _ _ _ hyx | @drain m rest _ _ _ hyx =>
    have hreq : ∀ m ∈ v.yx, ¬ m.IsRequest := hreq
    rw [hyx] at hreq
    refine ⟨hy, hx, ?_, fun m hm => hreq m (mem_cons_of_mem _ hm)⟩
    change v.xy ++ _ = []
    rw [SysMsg.answer_of_not_isRequest (hreq m mem_cons_self), show v.xy = [] from hxy]
    rfl
  | @lost m q o _ _ _ hxy' => exact absurd (hxy.symm.trans hxy').symm (by simp)
  | terminate _ ha =>
    obtain ⟨stale, rfl⟩ := ha
    exact absurd rfl hexit

/-- **Before the fork is added.** -/
theorem Unborn.step (h : Unborn home f z s) (hw : Wf home s) (hne : z ≠ f)
    (hs : s.step home act = some s') (hcreate : act.created ≠ some (home z))
    (hnew : act.newFork ≠ some f) (hdrop : act.dropped ≠ some f)
    (hexit : act.exits ≠ some (f, z)) : Unborn home f z s' := by
  have hz : s (home z) = .absent := (hw _).absent h.absent
  have htask : ∀ t, act ≠ .task (home z) t := by
    rintro t rfl
    obtain ⟨k', hk, -⟩ := map_eq_some_iff.mp hs
    rw [hz] at hk
    obtain ⟨⟨g, l, o, rfl⟩, -⟩ := act_absent hk
    exact hcreate rfl
  have hsilent : Silent (s'.view home z f) := by
    refine (view_step hw hne hs).keeps (P := Silent) ⟨?_, ?_, h.silent, h.request⟩
      (fun hacts hv => hv.acts_absent hacts htask)
      fun hacts hv => hv.acts_unborn hacts hnew hexit
    · exact map_eq_none_iff.mpr (by rw [hz]; rfl)
    · exact map_eq_none_iff.mpr h.entry
  refine ⟨?_, ?_, context_of_step hw hs hnew h.context, done_of_step hw hs hdrop h.done,
    hsilent.2.2.1, hsilent.2.2.2⟩
  · rcases container_of_step hs (home z) with ⟨t, ha, -⟩ | ⟨q, o, hk, -⟩
    · exact absurd ha (htask t)
    · rw [hk]
      exact h.absent
  · exact map_eq_none_iff.mp hsilent.2.1

/-- The fork is added. -/
theorem Unborn.born (h : Unborn home f z s)
    (hs : s.step home (.task (home f) (.call (.forkAdded f))) = some s') : Open home f z s' := by
  obtain ⟨k', hk, rfl⟩ := map_eq_some_iff.mp hs
  cases taskMoves_of_act hk with
  | call hp hout _ hcall
  cases hcall
  have hflight : ∀ m, m ∉ between f z (s (home z)).rxSystem := fun m hm => by
    have hmem : m ∈ s.flight home f z := mem_append_left _ hm
    rw [h.silent] at hmem
    exact not_mem_nil hmem
  refine ⟨?_, ?_, ?_, .inl ?_, fun m hm => ?_⟩
  · simp [Container.setEntry]
  · simp
  · simpa [Container.setEntry] using h.done
  · simpa [Container.setEntry] using hp
  · rw [flight, Function.update_self] at hm
    rcases mem_append.mp hm with hm | hm
    · by_cases hz : home z = home f
      · rw [hz, Function.update_self] at hm
        exact absurd (hz ▸ hm) (hflight m)
      · rw [Function.update_of_ne hz] at hm
        exact absurd hm (hflight m)
    · exact absurd (mem_between.mp hm).1 (by simp [Container.setEntry, hout])

/-! ### While the context is alive -/

/-- No `Exit` is on its way to `z` while `f` is in the registry. -/
private def Mild (v : View) : Prop := v.y.phase.unlisted = true ∨ ∀ m ∈ v.yx, m.isLinkExit = false

private theorem Half.Next.unlisted (hnext : h.Next p) (hp : h.phase.unlisted = true) :
    p.unlisted = true := by
  rcases hnext with rfl | ⟨hnext, -⟩
  · exact hp
  · exact hnext.unlisted hp

omit [DecidableEq ι] in
private theorem Mild.acts_peer (hv : Mild v) (h : Acts home s act z f v v')
    (hacc : ∀ stale, (s (home f)).accepts stale = true) : Mild v' := by
  cases h with
  | phase _ hq => exact hv.imp_left hq.unlisted
  | born | link | unlink | watch | unwatch | gone | terminate => exact hv
  | recv _ _ _ hyx | refuse _ _ _ hyx | drain _ _ hyx =>
    refine hv.imp_right fun hv m hm => hv m ?_
    rw [hyx]
    exact mem_cons_of_mem _ hm
  | lost _ _ _ _ _ _ ha =>
    obtain ⟨stale, -, -, hno⟩ := ha
    exact nomatch (hacc stale).symm.trans hno

omit [DecidableEq ι] in
/-- No step sends an `Exit` while `f` is there. -/
private theorem Mild.acts (hv : Mild v.swap) (h : Acts home s act f z v v')
    (hentry : (s (home f)).jobEntries f ≠ none) (hdone : .forkDone f ∉ (s (home f)).rxSystem)
    (hexit : act.exits ≠ some (f, z)) : Mild v'.swap := by
  have hsend : ∀ {l}, (∀ m ∈ l, m.isLinkExit = false) →
      v.x.phase.unlisted = true ∨ ∀ m ∈ v.xy ++ l, m.isLinkExit = false := fun hl =>
    hv.imp_right fun hv m hm => (mem_append.mp hm).elim (hv m) (hl m)
  cases h with
  | phase hp => exact hv.imp_left hp.unlisted
  | born | recv => exact hv
  | link | unlink | watch | unwatch =>
    refine hsend fun m hm => ?_
    rw [mem_singleton.mp hm]
    rfl
  | refuse _ _ _ _ hnone => exact absurd hnone.2 hentry
  | drain hp =>
    left
    change v.x.phase.unlisted = true
    rw [hp]
    rfl
  | gone hp =>
    rcases hp with hp | ⟨-, -, hhead⟩
    · left
      change v.x.phase.unlisted = true
      rw [hp]
      rfl
    · exact absurd (mem_of_mem_head? hhead) hdone
  | lost _ hxy =>
    refine hv.imp_right fun hv m hm => ?_
    have hv : ∀ m ∈ v.xy, m.isLinkExit = false := hv
    rw [hxy] at hv
    exact hv m ((mem_append.mp hm).elim (mem_append_left _)
      fun hm => mem_append_right _ (mem_cons_of_mem _ hm))
  | terminate _ ha =>
    obtain ⟨stale, rfl⟩ := ha
    exact absurd rfl hexit

omit [DecidableEq ι] in
private theorem Open.accepts (h : Open home f z s) (stale : Bool) :
    (s (home f)).accepts stale = true := by
  rcases h.phase with hp | ⟨b, hp⟩
  · rw [Container.accepts, hp]
  · rw [Container.accepts, hp]

/-- The entry of a fork stays as long as its context. -/
private theorem Open.entry_of_step (h : Open home f z s) (hw : Wf home s)
    (hs : s.step home act = some s') : (s' (home f)).jobEntries f ≠ none := by
  rcases container_of_step hs (home f) with ⟨t, -, hk⟩ | ⟨q, o, hk, -⟩
  · rcases entry_of_act (hw _) hk f with hsame | ⟨hne, -⟩ | ⟨-, ⟨-, -, hhead⟩ | ⟨b, hp⟩⟩
    · exact hsame.mpr h.entry
    · exact hne
    · exact absurd (mem_of_mem_head? hhead) h.done
    · rcases h.phase with hp' | ⟨b', hp'⟩
      · exact nomatch hp.symm.trans hp'
      · exact nomatch hp.symm.trans hp'
  · rw [hk]
    exact h.entry

/-- The actor of `f` runs or stops. -/
private theorem Open.phase_of_step (h : Open home f z s) (hw : Wf home s)
    (hs : s.step home act = some s') :
    (s' (home f)).phase = .running ∨ ∃ b, (s' (home f)).phase = .stopping b := by
  rcases container_of_step hs (home f) with ⟨t, -, hk⟩ | ⟨q, o, hk, -⟩
  · rcases h.phase with hp | ⟨b, hp⟩
    · rcases phase_next_of_act (hw _) hk with hp' | hp'
      · exact .inl (hp'.trans hp)
      · rw [hp] at hp'
        cases hp'' : (s' (home f)).phase with
        | stopping b => exact .inr ⟨b, rfl⟩
        | _ =>
          rw [hp''] at hp'
          exact hp'.elim
    · exact .inr ⟨b, stopping_of_act hk hp h.context⟩
  · rw [hk]
    exact h.phase

/-- **While the context is alive.** -/
theorem Open.step (h : Open home f z s) (hw : Wf home s) (hne : z ≠ f)
    (hs : s.step home act = some s') (hdrop : act.dropped ≠ some f)
    (hexit : act.exits ≠ some (f, z)) : Open home f z s' := by
  have hphase := h.phase_of_step hw hs
  have hmild : Mild (s'.view home z f) :=
    (view_step hw hne hs).keeps (P := Mild) (.inr h.mild)
      (fun hacts hv => hv.acts_peer hacts h.accepts)
      fun hacts hv => hv.acts hacts h.entry h.done hexit
  refine ⟨h.entry_of_step hw hs, ?_, done_of_step hw hs hdrop h.done, hphase, ?_⟩
  · rcases container_of_step hs (home f) with ⟨t, rfl, hk⟩ | ⟨q, o, hk, -⟩
    · refine ((flow_of_act (hw _) hk).contexts f).mpr (.inl ⟨h.context, ?_⟩)
      rintro rfl
      exact hdrop rfl
    · rw [hk]
      exact h.context
  · refine hmild.resolve_left fun hun => ?_
    have hun : (s' (home f)).phase.unlisted = true := hun
    rcases hphase with hp | ⟨b, hp⟩
    · rw [hp] at hun
      contradiction
    · rw [hp] at hun
      contradiction

/-! ### After the context is dropped -/

/-- Not all `Exit`s to `z` are met with a link, unless `z` is on its way out. -/
private def Tamed (v : View) : Prop :=
  v.x.phase.result ≠ none ∨
    Tame writesLink SysMsg.isExit v.x.linked v.yx ∧ ∀ m ∈ v.yx, m.isTerminate = false

private theorem Half.Next.result (hnext : h.Next p) (hp : h.phase.result ≠ none) :
    p.result ≠ none := by
  rcases hnext with rfl | ⟨hnext, -⟩
  · exact hp
  · obtain ⟨b, hb⟩ := ne_none_iff_exists'.mp hp
    rw [hnext.result hb]
    exact some_ne_none b

private theorem isTerminate_of_answer {m m' : SysMsg} (h : m.answer reason = some m')
    (hr : reason ≠ .terminate) : m'.isTerminate = false ∧ writesLink m' ≠ some true := by
  rcases SysMsg.answer_cases h with ⟨x, y, -, rfl⟩ | ⟨x, y, r, -, rfl⟩
  · cases reason with
    | terminate => exact absurd rfl hr
    | normal | linkDown => exact ⟨rfl, nofun⟩
  · exact ⟨rfl, nofun⟩

private theorem isTerminate_of_farewell {r : Rel} {x y : Address} {out : List SysMsg}
    (h : r.Farewell x y b out) (hm : m ∈ out) :
    m.isTerminate = false ∧ writesLink m ≠ some true := by
  rcases h.mem_cases hm with ⟨ref, rfl⟩ | rfl | rfl
  · exact ⟨rfl, nofun⟩
  · cases b <;> exact ⟨rfl, nofun⟩
  · exact ⟨rfl, nofun⟩

private theorem writesLink_of_not_isRequest (h : ¬ m.IsRequest) :
    writesLink m = none ∨ writesLink m = some false ∧ m.isExit = true := by
  cases m with
  | kill | forkDone | watch => exact .inl rfl
  | link l =>
    cases l with
    | connect | disconnect => exact absurd trivial h
    | exit x y reason =>
      cases reason with
      | terminate => exact .inl rfl
      | normal | linkDown => exact .inr ⟨rfl, rfl⟩

omit [DecidableEq ι] in
/-- The fork that may be told acts. -/
private theorem Tamed.acts_peer (hv : Tamed v) (h : Acts home s act z f v v')
    (hcreate : act.created ≠ some (home z)) (hlink : act.linked ≠ some (z, f)) : Tamed v' := by
  cases h with
  | phase hp =>
    exact hv.imp hp.result id
  | @born hp hr =>
    refine hv.imp_right fun ⟨htame, hterm⟩ => ⟨?_, hterm⟩
    rw [Half.linked_of_none hr] at htame
    exact htame
  | link _ _ _ _ ha =>
    rcases ha with ⟨rfl, -⟩ | ⟨l, o, rfl⟩
    · exact absurd rfl hlink
    · exact absurd rfl hcreate
  | unlink => exact hv.imp_right fun ⟨htame, hterm⟩ => ⟨htame.lower, hterm⟩
  | watch _ hr | unwatch _ hr =>
    refine hv.imp_right fun ⟨htame, hterm⟩ => ⟨?_, hterm⟩
    rw [Half.linked_of_some hr] at htame
    exact htame
  | @recv r m rest _ hr _ hyx =>
    refine hv.imp_right fun ⟨htame, hterm⟩ => ?_
    rw [hyx] at htame hterm
    rw [Half.linked_of_some hr] at htame
    refine ⟨?_, fun m hm => hterm m (mem_cons_of_mem _ hm)⟩
    change Tame writesLink SysMsg.isExit (r.recv m).linked rest
    rw [Rel.linked_recv]
    exact htame.2
  | refuse _ hr _ hyx =>
    refine hv.imp_right fun ⟨htame, hterm⟩ => ?_
    rw [hyx] at htame hterm
    refine ⟨?_, fun m hm => hterm m (mem_cons_of_mem _ hm)⟩
    change Tame writesLink SysMsg.isExit v.x.linked _
    rw [Half.linked_of_none hr]
    exact htame.tail
  | drain hp =>
    left
    change v.x.phase.result ≠ none
    rw [hp]
    exact some_ne_none _
  | gone => exact hv.imp_right fun ⟨htame, hterm⟩ => ⟨htame.lower, hterm⟩
  | @lost m q o q' o' _ _ hyx _ _ hreq =>
    refine hv.imp_right fun ⟨htame, hterm⟩ => ?_
    rw [hyx] at htame hterm
    cases hm : m.answer .linkDown with
    | none => exact ⟨htame, hterm⟩
    | some m' =>
      obtain ⟨hterm', hw⟩ := isTerminate_of_answer hm nofun
      refine ⟨htame.insert hw fun m hm => writesLink_of_not_isRequest (hreq m hm), ?_⟩
      intro m hm
      rcases mem_append.mp hm with hm | hm
      · exact hterm m (mem_append_left _ hm)
      · rcases mem_cons.mp hm with rfl | hm
        · exact hterm'
        · exact hterm m (mem_append_right _ hm)
  | terminate => exact hv

omit [DecidableEq ι] in
/-- The fork itself acts. -/
private theorem Tamed.acts (hv : Tamed v.swap) (h : Acts home s act f z v v')
    (hnew : act.newFork ≠ some f) (hlink : act.linked ≠ some (f, z))
    (hexit : act.exits ≠ some (f, z)) : Tamed v'.swap := by
  have hsend : ∀ {l}, (∀ m ∈ l, m.isTerminate = false ∧ writesLink m ≠ some true) →
      v.y.phase.result ≠ none ∨ Tame writesLink SysMsg.isExit v.y.linked (v.xy ++ l) ∧
        ∀ m ∈ v.xy ++ l, m.isTerminate = false := fun hl =>
    hv.imp_right fun ⟨htame, hterm⟩ => ⟨htame.append fun m hm => (hl m hm).2,
      fun m hm => (mem_append.mp hm).elim (hterm m) fun hm => (hl m hm).1⟩
  cases h with
  | phase _ hq => exact hv.imp hq.result id
  | born | recv => exact hv
  | link _ _ _ _ ha =>
    rcases ha with ⟨rfl, -⟩ | ⟨l, o, rfl⟩
    · exact absurd rfl hlink
    · exact absurd rfl hnew
  | unlink | watch | unwatch =>
    refine hsend fun m hm => ?_
    rw [mem_singleton.mp hm]
    exact ⟨rfl, nofun⟩
  | refuse =>
    exact hsend fun m hm => isTerminate_of_answer (mem_toList.mp hm) nofun
  | drain =>
    exact hsend fun m hm => isTerminate_of_answer (mem_toList.mp hm)
      (ExitReason.ofNormal_ne_terminate _)
  | gone _ _ hout => exact hsend fun m hm => isTerminate_of_farewell hout hm
  | @lost m q o _ _ _ hxy _ hp habsent =>
    by_cases hleft : v.y.phase.result = none
    case neg => exact .inl hleft
    -- the actor of `z` does not exist yet
    have hp' : v.y.phase = .absent := by
      cases hphase : v.y.phase with
      | absent => rfl
      | running => exact absurd hphase hp.1
      | stopping b => exact absurd hphase (hp.2 b)
      | unregistered | draining | finished =>
        rw [hphase] at hleft
        contradiction
    obtain ⟨hnone, rfl⟩ := habsent hp'
    refine hv.imp_right fun ⟨htame, hterm⟩ => ?_
    have htame : Tame writesLink SysMsg.isExit v.y.linked v.xy := htame
    have hterm : ∀ m ∈ v.xy, m.isTerminate = false := hterm
    rw [hxy, nil_append] at htame hterm
    refine ⟨?_, fun m hm => hterm m (mem_cons_of_mem _ hm)⟩
    change Tame writesLink SysMsg.isExit v.y.linked o
    rw [Half.linked_of_none hnone]
    exact htame.tail
  | terminate _ ha =>
    obtain ⟨stale, rfl⟩ := ha
    exact absurd rfl hexit

private theorem KillFirst.append {q q' : List SysMsg} (h : KillFirst f z q) :
    KillFirst f z (q ++ q') := by
  obtain ⟨pre, post, rfl, hpre⟩ := h
  exact ⟨pre, post ++ q', by simp, hpre⟩

/-- A `Kill` stays first, or is handled. -/
private theorem KillFirst.step {home : Address → ι} {c : ι} {k k' : Container} {t : TaskAction}
    (h : KillFirst f z k.rxSystem) (hw : k.Wf home c) (hk : k.act home c t = some k') :
    k'.phase.result ≠ none ∨ KillFirst f z k'.rxSystem := by
  obtain ⟨pre, post, hsplit, hpre⟩ := h
  rcases (flow_of_act hw hk).queue with ⟨o, m, ha, hpop⟩ | ⟨q, happ, -⟩
  · rw [hpop] at hsplit
    cases pre with
    | cons m' pre =>
      obtain ⟨-, hrest⟩ := List.cons.inj hsplit
      exact .inr ⟨pre, post, hrest, fun m hm => hpre m (mem_cons_of_mem _ hm)⟩
    | nil =>
      obtain ⟨rfl, -⟩ := List.cons.inj hsplit
      left
      rcases ha with rfl | rfl
      · cases taskMoves_of_act hk with
        | recv hp _ hq hmsg =>
          obtain ⟨rfl, -⟩ := List.cons.inj (hq.symm.trans hpop)
          cases hmsg with
          | kill => exact some_ne_none false
          | refuse hm | recv hm => contradiction
      · cases taskMoves_of_act hk with
        | @drain _ b _ _ _ hp _ hq hmsg =>
          obtain ⟨rfl, -⟩ := List.cons.inj (hq.symm.trans hpop)
          cases hmsg
          change k.phase.result ≠ none
          rw [hp]
          exact some_ne_none b
  · rw [happ]
    exact .inr (KillFirst.append ⟨pre, post, hsplit, hpre⟩)

private theorem result_of_step (hw : Wf home s) (hs : s.step home act = some s')
    (h : (s (home z)).phase.result ≠ none) : (s' (home z)).phase.result ≠ none := by
  rcases container_of_step hs (home z) with ⟨t, -, hk⟩ | ⟨q, o, hk, -⟩
  · rcases phase_next_of_act (hw _) hk with hp | hp
    · rwa [hp]
    · obtain ⟨b, hb⟩ := ne_none_iff_exists'.mp h
      rw [hp.result hb]
      exact some_ne_none b
  · rwa [hk]

/-- **After the context is dropped.** -/
theorem Harmless.step (h : Harmless home f z s) (hw : Wf home s) (hne : z ≠ f)
    (hs : s.step home act = some s') (hcreate : act.created ≠ some (home z))
    (hnew : act.newFork ≠ some f) (hlink : act.linked ≠ some (f, z))
    (hlink' : act.linked ≠ some (z, f)) (hexit : act.exits ≠ some (f, z)) :
    Harmless home f z s' := by
  rcases h with hleft | hkill | htame
  · exact .inl (result_of_step hw hs hleft)
  · rcases container_of_step hs (home z) with ⟨t, -, hk⟩ | ⟨q, o, hk, -⟩
    · exact (hkill.step (hw _) hk).imp_right .inl
    · rw [Harmless, hk]
      exact .inr (.inl hkill.append)
  · have htamed : Tamed (s'.view home z f) :=
      (view_step hw hne hs).keeps (P := Tamed) (.inr htame)
        (fun hacts hv => hv.acts_peer hacts hcreate hlink')
        fun hacts hv => hv.acts hacts hnew hlink hexit
    exact htamed.imp_right .inr

omit [DecidableEq ι] in
/-- **The context may be dropped** when the actor of `z` is on its way out, or when the messages
of `f` leave `z` without a link to it. -/
theorem Open.harmless (h : Open home f z s)
    (hdrop : (s (home z)).phase.result ≠ none ∨ .kill ∈ (s (home z)).rxSystem ∨
      settle writesLink (s.half home z f).linked (s.flight home f z) = false) :
    Harmless home f z s := by
  rcases hdrop with hleft | hkill | hsettle
  · exact .inl hleft
  · obtain ⟨pre, post, hsplit⟩ := append_of_mem hkill
    refine .inr (.inl ⟨pre, post, hsplit, fun m hm hroute => h.mild m ?_⟩)
    refine mem_append_left _ (mem_between.mpr ⟨?_, hroute⟩)
    rw [hsplit]
    exact mem_append_left _ hm
  · refine .inr (.inr ⟨.of_settle (fun m hm => ?_) hsettle, fun m hm => ?_⟩)
    · have hmild := h.mild m hm
      unfold SysMsg.isExit
      split
      case h_2 => contradiction
      all_goals rfl
    · have hmild := h.mild m hm
      unfold SysMsg.isTerminate
      split
      case h_1 => contradiction
      case h_2 => rfl

omit [DecidableEq ι] in
/-- A fork that is never added does no harm. -/
theorem Unborn.harmless (h : Unborn home f z s) (hw : Wf home s) : Harmless home f z s := by
  have hz : s (home z) = .absent := (hw _).absent h.absent
  have hrel : (s.half home z f).rel = none := map_eq_none_iff.mpr (by rw [hz]; rfl)
  refine .inr (.inr ?_)
  rw [h.silent, Half.linked_of_none hrel]
  exact ⟨rfl, fun m hm => absurd hm not_mem_nil⟩

end Steps

end Mm1
