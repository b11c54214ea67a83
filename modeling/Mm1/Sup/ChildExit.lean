import Mm1.Runtime.Exited
import Mm1.Sup.Decider

/-!
# How a supervisor learns about the end of a child

A supervisor links to a child when it handles the report that the child was started. By then the
child may have ended. What it is told depends on how far the child has come when the `Connect` is
sent:

* the child handles the `Connect`, and sends an `Exit` with its result at its end;
* the `Connect` is left in the closed queue and is answered with the result;
* the `Connect` cannot be sent. The container of the supervisor then queues an `Exit` with
  `LinkDown` to itself, whatever the result was.

`exited_iff_result`: as long as the last one does not happen to a child that ended well,
`Exited` says how the child ended. `exited_abnormal_of_normal` is a child that ended well before
the supervisor linked to it, and is taken for one that failed.
-/

namespace Mm1

open Sys Transition Option List

/-- The container that sends a message, and whether it has looked the receiver up before. -/
def Action.flushed {ι : Type*} : Action ι → Option (ι × Bool)
  | .flush c stale => some (c, stale)
  | _ => none

variable {ι : Type*} {home : Address → ι} {sup child : Address} {x y : Address} {b : Bool}
  {p : Phase}

/-- The actor of `child` is created with this main fork, and it does not ask the supervisor to
terminate. -/
def Supervised (home : Address → ι) (sup child : Address) (act : Action ι) : Prop :=
  (∀ c ∈ act.created, c = home child → act.newFork = some child) ∧
    ∀ xy ∈ act.exits, xy ≠ (child, sup)

/-- **The condition.** The `Connect` of the supervisor is sent while the queue of the child is
open, or the child did not end well. -/
def ConnectsInTime (home : Address → ι) (sup child : Address) (s : Sys ι) (act : Action ι) :
    Prop :=
  ∀ p ∈ act.flushed, p.1 = home sup →
    (s (home sup)).outbox.head? = some (.link (.connect sup child)) →
    (s (home child)).accepts p.2 = true ∨ (s (home child)).phase.result = some false

instance [DecidableEq ι] (act : Action ι) : Decidable (Supervised home sup child act) :=
  inferInstanceAs (Decidable (_ ∧ _))

instance [DecidableEq ι] (s : Sys ι) (act : Action ι) :
    Decidable (ConnectsInTime home sup child s act) :=
  inferInstanceAs (Decidable (∀ p ∈ act.flushed, _))

/-! ### The main fork of the child -/

/-- The main fork of a running container is not one of those that end by a `ForkDone`. -/
def Container.HasMain (k : Container) (f : Address) : Prop :=
  k.phase = .running → k.jobEntries f ≠ none ∧ f ∉ k.contexts ∧ .forkDone f ∉ k.rxSystem

section Steps

variable [DecidableEq ι] {c : ι} {k k' : Container} {t : TaskAction} {s s' : Sys ι}
  {act : Action ι} {v v' : View}

/-- An action keeps the main fork. -/
private theorem Container.HasMain.of_act {f : Address} (h : k.HasMain f) (hw : k.Wf home c)
    (hk : k.act home c t = some k') (hcreate : ∀ g l o, t = .create g l o → g = f) :
    k'.HasMain f := by
  intro hp'
  rcases phase_next_of_act hw hk with hp | hnext
  · obtain ⟨hentry, hctx, hdone⟩ := h (hp.symm.trans hp')
    have hflow := flow_of_act hw hk
    refine ⟨?_, ?_, ?_⟩
    · rcases entry_of_act hw hk f with hsame | ⟨hne, -⟩ | ⟨-, ⟨-, -, hhead⟩ | ⟨b, hp''⟩⟩
      · exact hsame.mpr hentry
      · exact hne
      · exact absurd (mem_of_mem_head? hhead) hdone
      · exact nomatch (hp.symm.trans hp').symm.trans hp''
    · rw [hflow.contexts f]
      rintro (⟨hmem, -⟩ | rfl)
      · exact hctx hmem
      · -- a fork with an entry is not added again
        cases taskMoves_of_act hk with
        | call _ _ _ hcall =>
          cases hcall with
          | forkAdded he => exact absurd he hentry
    · rcases hflow.queue with ⟨o, m, -, hpop⟩ | ⟨q, happ, hq⟩
      · exact fun hmem => hdone (by rw [hpop]; exact mem_cons_of_mem _ hmem)
      · rw [happ]
        refine fun hmem => (mem_append.mp hmem).elim hdone fun hmem => ?_
        rcases hq f hmem with rfl | rfl
        · cases taskMoves_of_act hk with
          | dropFork hf => exact absurd hf hctx
        · cases taskMoves_of_act hk with
          | dropUnapplied _ he => exact absurd he hentry
  · rw [hp'] at hnext
    obtain rfl := hw.absent (Phase.eq_absent_of_next hnext)
    obtain ⟨⟨g, l, o, rfl⟩, -⟩ := act_absent hk
    obtain rfl := hcreate g l o rfl
    cases taskMoves_of_act hk
    exact ⟨by simp [create], Finset.notMem_empty g, not_mem_nil⟩

private theorem hasMain_step (hw : Wf home s) (hs : s.step home act = some s')
    (hok : Supervised home sup child act) (h : (s (home child)).HasMain child) :
    (s' (home child)).HasMain child := by
  rcases container_of_step hs (home child) with ⟨t, rfl, hk⟩ | ⟨q, o, hk, hq⟩
  · refine Container.HasMain.of_act h (hw _) hk ?_
    rintro g l o rfl
    exact some.inj (hok.1 _ rfl rfl)
  · intro hp
    rw [hk] at hp ⊢
    obtain ⟨hentry, hctx, hdone⟩ := h hp
    exact ⟨hentry, hctx, fun hmem => (mem_append.mp hmem).elim hdone (hq child)⟩

/-! ### The messages of the child -/

/-- Each `Exit` on its way from the child has its result. -/
private def Truthful (home : Address → ι) (s : Sys ι) (x y : Address) (v : View) : Prop :=
  (∀ b, (s (home x)).phase.result = some b → v.x.phase.result = some b) ∧
    ∀ reason, .link (.exit x y reason) ∈ v.xy →
      reason ≠ .terminate ∧ v.x.phase.result = some (reason == .normal)

omit [DecidableEq ι] in
private theorem Truthful.send {l : List SysMsg} (hv : Truthful home s x y v)
    (hl : ∀ reason, .link (.exit x y reason) ∈ l →
      reason ≠ .terminate ∧ v.x.phase.result = some (reason == .normal)) :
    ∀ reason, .link (.exit x y reason) ∈ v.xy ++ l →
      reason ≠ .terminate ∧ v.x.phase.result = some (reason == .normal) :=
  fun reason hm => (mem_append.mp hm).elim (hv.2 reason) (hl reason)

private theorem Half.Next.result_eq {h : Half} (hnext : h.Next p) (hb : h.phase.result = some b) :
    p.result = some b := by
  rcases hnext with rfl | ⟨hnext, -⟩
  · exact hb
  · exact hnext.result hb

private theorem ofNormal_beq_normal (b : Bool) : (ExitReason.ofNormal b == .normal) = b := by
  cases b <;> rfl

/-- The reason of an `Exit` in the final messages. -/
private theorem reason_of_farewell {r : Rel} {out : List SysMsg} {reason : ExitReason}
    (h : r.Farewell x y b out) (hm : .link (.exit x y reason) ∈ out) : reason = .ofNormal b := by
  rcases h.mem_cases hm with ⟨ref, h⟩ | h | h
  · contradiction
  · cases h
    rfl
  · contradiction

private theorem reason_of_answer {m : SysMsg} {reason reason' : ExitReason}
    (h : m.answer reason = some (.link (.exit x y reason'))) :
    m = .link (.connect y x) ∧ reason' = reason := by
  rcases SysMsg.answer_cases h with ⟨_, _, rfl, h⟩ | ⟨_, _, _, -, h⟩
  · cases h
    exact ⟨rfl, rfl⟩
  · contradiction

private theorem absent_or_running (h : p.result = none) : p = .absent ∨ p = .running := by
  cases p with
  | absent => exact .inl rfl
  | running => exact .inr rfl
  | _ => contradiction

omit [DecidableEq ι] in
/-- The child acts. -/
private theorem Truthful.acts (hv : Truthful home s child sup v)
    (h : Acts home s act child sup v v') (hw : Wf home s)
    (hmain : (s (home child)).HasMain child) (hok : Supervised home sup child act) :
    Truthful home s child sup v' := by
  cases h with
  | phase hp =>
    refine ⟨fun b hb => hp.result_eq (hv.1 b hb), fun reason hm => ?_⟩
    exact (hv.2 reason hm).imp_right hp.result_eq
  | born | recv => exact hv
  | link | unlink | watch | unwatch =>
    exact ⟨hv.1, hv.send fun reason hm => nomatch mem_singleton.mp hm⟩
  | refuse _ _ _ _ hs => exact absurd hs.2 (hmain hs.1).1
  | @drain m rest b hp =>
    refine ⟨hv.1, hv.send fun reason hm => ?_⟩
    obtain ⟨-, rfl⟩ := reason_of_answer (mem_toList.mp hm)
    rw [hp, ofNormal_beq_normal]
    exact ⟨ExitReason.ofNormal_ne_terminate b, rfl⟩
  | @gone r b out hp _ hout =>
    refine ⟨hv.1, hv.send fun reason hm => ?_⟩
    obtain rfl := reason_of_farewell hout hm
    rcases hp with hp | ⟨hp, -, hhead⟩
    · rw [hp, ofNormal_beq_normal]
      exact ⟨ExitReason.ofNormal_ne_terminate b, rfl⟩
    · -- the main fork does not end by a `ForkDone`
      have hres : (s (home child)).phase.result = none := by
        by_contra hne
        obtain ⟨b, hb⟩ := ne_none_iff_exists'.mp hne
        have hb' := hv.1 b hb
        rw [hp] at hb'
        contradiction
      have hmem := mem_of_mem_head? hhead
      rcases absent_or_running hres with hp' | hp'
      · rw [(hw _).absent hp'] at hmem
        exact absurd hmem not_mem_nil
      · exact absurd hmem (hmain hp').2.2
  | @lost m q o q' o' _ hxy =>
    refine ⟨hv.1, fun reason hm => hv.2 reason ?_⟩
    rw [hxy]
    exact (mem_append.mp hm).elim (mem_append_left _)
      fun hm => mem_append_right _ (mem_cons_of_mem _ hm)
  | terminate _ ha =>
    obtain ⟨stale, rfl⟩ := ha
    exact absurd rfl (hok.2 _ rfl)

omit [DecidableEq ι] in
/-- The supervisor acts. -/
private theorem Truthful.acts_sup (hv : Truthful home s child sup v.swap)
    (h : Acts home s act sup child v v') (hok : ConnectsInTime home sup child s act) :
    Truthful home s child sup v'.swap := by
  cases h with
  | phase _ hq =>
    refine ⟨fun b hb => hq.result_eq (hv.1 b hb), fun reason hm => ?_⟩
    exact (hv.2 reason hm).imp_right hq.result_eq
  | recv _ _ _ hyx | refuse _ _ _ hyx | drain _ _ hyx =>
    refine ⟨hv.1, fun reason hm => hv.2 reason ?_⟩
    change _ ∈ v.yx
    rw [hyx]
    exact mem_cons_of_mem _ hm
  | @lost m q o q' o' _ _ hyx _ _ _ ha =>
    refine ⟨hv.1, fun reason hm => ?_⟩
    have hold : ∀ {reason}, .link (.exit child sup reason) ∈ q' ++ o' → _ :=
      fun hm => hv.2 _ (hyx ▸ hm)
    rcases mem_append.mp hm with hm | hm
    · exact hold (mem_append_left _ hm)
    · rcases mem_append.mp hm with hm | hm
      · -- the `Connect` could not be sent
        obtain ⟨rfl, rfl⟩ := reason_of_answer (mem_toList.mp hm)
        obtain ⟨stale, rfl, hhead, hacc⟩ := ha
        rcases hok _ rfl rfl hhead with hacc' | hres
        · exact nomatch hacc.symm.trans hacc'
        · exact ⟨nofun, hv.1 false hres⟩
      · exact hold (mem_append_right _ hm)
  | _ => exact hv

/-! ### Runs -/

/-- What the supervisor is told, and is going to be told, is how the child ended. -/
structure ChildInv (home : Address → ι) (sup child : Address) (s : Sys ι) : Prop where
  wf : Wf home s
  main : (s (home child)).HasMain child
  truthful : ∀ reason, .link (.exit child sup reason) ∈ s.flight home child sup →
    reason ≠ .terminate ∧ (s (home child)).phase.result = some (reason == .normal)
  told : ∀ b, .exited sup child b ∈ (s (home sup)).log →
    (s (home child)).phase.result = some b

omit [DecidableEq ι] in
private theorem ChildInv.init : ChildInv home sup child (Sys.init : Sys ι) where
  wf := .init
  main h := nomatch h
  truthful _ h := absurd h not_mem_nil
  told _ h := absurd h not_mem_nil

omit [DecidableEq ι] in
/-- A report is about an `Exit` of the child, which has its result. -/
private theorem ChildInv.of_reports (h : ChildInv home sup child s)
    (hr : (s (home sup)).Reports sup child b) : (s (home child)).phase.result = some b := by
  obtain ⟨-, e, reason, -, hhead, rfl, -⟩ := hr
  refine (h.truthful reason (mem_append_left _ (mem_between.mpr ⟨?_, rfl⟩))).2
  exact mem_of_mem_head? hhead

/-- **One step** that meets the condition. -/
theorem ChildInv.step (h : ChildInv home sup child s) (hne : child ≠ sup)
    (hsup : Supervised home sup child act) (hok : ConnectsInTime home sup child s act)
    (hs : s.step home act = some s') : ChildInv home sup child s' := by
  have hview : Truthful home s child sup (s'.view home child sup) :=
    (view_step h.wf hne hs).keeps (P := Truthful home s child sup)
      ⟨fun _ hb => hb, h.truthful⟩ (fun hacts hv => hv.acts hacts h.wf h.main hsup)
      fun hacts hv => hv.acts_sup hacts hok
  refine ⟨h.wf.step hs, hasMain_step h.wf hs hsup h.main, hview.2, fun b hev => ?_⟩
  exact hview.1 b ((exited_of_step h.wf hs hev).elim (h.told b) h.of_reports)

/-- **`Exited` says how the child ended.** In every run in which the `Connect` of the supervisor
is sent while the queue of the child is open, or to a child that did not end well: when the
supervisor has been told `Exited` about the child, the child has left its main loop, and
`normal_exit` is whether it ended well. A transient child that ended well is then left stopped. -/
theorem exited_iff_result (hne : child ≠ sup)
    (h : Reaches (step home)
      (fun s act => Supervised home sup child act ∧ ConnectsInTime home sup child s act) init s)
    {normalExit : Bool} (hev : .exited sup child normalExit ∈ (s (home sup)).log) :
    (s (home child)).phase.result = some normalExit ∧
      ((s (home child)).phase.result = some true →
        ChildType.transient.isAcceptable normalExit = true) := by
  have hinv : ChildInv home sup child s :=
    h.invariant .init fun hinv hok hs => hinv.step hne hok.1 hok.2 hs
  have hres := hinv.told normalExit hev
  exact ⟨hres, fun hnormal => some.inj (hres.symm.trans hnormal)⟩

end Steps

/-- A child that ends well while the `Connect` of the supervisor is in its queue. -/
theorem exited_iff_result_drained :
    ∃ s : Sys Bool, Reaches (step splitHome) (fun s act =>
        Supervised splitHome ⟨1#64⟩ ⟨16#64⟩ act ∧
          ConnectsInTime splitHome ⟨1#64⟩ ⟨16#64⟩ s act) init s ∧
      .exited ⟨1#64⟩ ⟨16#64⟩ true ∈ (s false).log ∧ (s true).phase.result = some true := by
  have hreach : Reaches (step splitHome) (fun s act => Supervised splitHome ⟨1#64⟩ ⟨16#64⟩ act ∧
      ConnectsInTime splitHome ⟨1#64⟩ ⟨16#64⟩ s act) init _ := reaches_get
    [.task false (.create ⟨1#64⟩ ∅ []), .task false (.call (.trapExit true)),
      .task true (.create ⟨16#64⟩ ∅ []), .task false (.call (.link ⟨1#64⟩ ⟨16#64⟩)),
      .task true (.call (.exit true)), .flush false false, .task true .unregister,
      .task true .close, .task true (.drain {}), .flush true false, .task false (.recv {})]
    (by decide)
  exact ⟨_, hreach, (and_iff_left_of_imp fun hev =>
    (exited_iff_result (by decide) hreach hev).1).mpr (by decide)⟩

/-- **A child that ended well is taken for one that failed.** The start fork 2 spawns the child,
and the child ends well. When the supervisor links to it, the child is not in the registry any
more. The supervisor is told `Exited` with `normal_exit = false`, and restarts a transient
child. -/
theorem exited_abnormal_of_normal :
    ∃ s : Sys Bool, Reachable splitHome s ∧ (s true).phase = .finished true ∧
      .exited ⟨1#64⟩ ⟨16#64⟩ false ∈ (s false).log ∧
      ChildType.transient.isAcceptable false = false := by
  refine ⟨_, reaches_get [.task false (.create ⟨1#64⟩ ∅ []), .task false (.call (.trapExit true)),
      .task false (.call (.forkAdded ⟨2#64⟩)), .task true (.create ⟨16#64⟩ {⟨2#64⟩} [⟨2#64⟩]),
      .flush true false, .task false (.recv {}), .task true (.call (.exit true)),
      .task true .unregister, .task true .close,
      .task true (.epilogue { peers := [⟨2#64⟩] }), .flush true false, .task false (.recv {}),
      .task false (.dropFork ⟨2#64⟩), .task false (.call (.link ⟨1#64⟩ ⟨16#64⟩)),
      .flush false false, .task false (.recv {}), .task false (.recv {})] (by decide), ?_⟩
  decide

end Mm1
