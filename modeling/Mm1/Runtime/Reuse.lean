import Mm1.Pool.Run
import Mm1.Runtime.LinkAgree

/-!
# Addresses that are used again

Links and watches name a bare address. When a fork ends, its address goes back to the pool of its
container at once, while the `Exit`s and `Down`s that name it may still be queued elsewhere.

* `not_live_of_told`: as long as an address is given to a new fork only when no such message is
  on its way, a container that acts on an `Exit` or a `Down` never does so while the address has
  a live holder;
* `told_of_previous_holder`: otherwise a fork that links to the new holder and watches it can be
  told that it went down, because the previous holder did.
-/

namespace Mm1

open Transition Option List

/-- The message tells the receiver that the sender has ended. -/
def SysMsg.tellsEnd : SysMsg → Bool
  | .link (.exit _ _ .terminate) => false
  | .link (.exit _ _ _) => true
  | .watch (.down _ _ _) => true
  | _ => false

/-- An address is given to a new fork only when no message that tells about the end of a previous
holder is on its way. -/
def CleanReuse {ι : Type*} (s : Sys ι) (act : Action ι) : Prop :=
  ∀ f ∈ act.newFork, ∀ c, ∀ m ∈ (s c).rxSystem ++ (s c).outbox,
    m.tellsEnd = true → m.route.map Prod.fst ≠ some f

instance {ι : Type*} [Fintype ι] (s : Sys ι) (act : Action ι) : Decidable (CleanReuse s act) :=
  inferInstanceAs (Decidable (∀ f ∈ act.newFork, ∀ _, ∀ m ∈ _, _ → _))

/-- The fork at this end is alive. -/
def Half.Live (h : Half) : Prop := h.phase = .running ∧ h.rel ≠ none

/-- While `x` is alive, nothing on its way to `y` says that it has ended. -/
def NotTold (v : View) : Prop := v.x.Live → ∀ m ∈ v.xy, m.tellsEnd = false

section Acts

variable {ι : Type*} {home : Address → ι} {s s' : Sys ι} {act : Action ι} {x y f p : Address}
  {v v' : View}

/-- A container that starts has no forks yet. -/
private theorem Half.Next.live {h : Half} {q : Phase} (hnext : h.Next q)
    (hl : { h with phase := q }.Live) : h.Live := by
  refine ⟨?_, hl.2⟩
  rcases hnext with rfl | ⟨-, hnone⟩
  · exact hl.1
  · exact absurd (hnone hl.1) hl.2

private theorem tellsEnd_append {l l' : List SysMsg} (h : ∀ m ∈ l, m.tellsEnd = false)
    (h' : ∀ m ∈ l', m.tellsEnd = false) : ∀ m ∈ l ++ l', m.tellsEnd = false := fun m hm =>
  (mem_append.mp hm).elim (h m) (h' m)

private theorem not_told_of_cleanReuse (hok : CleanReuse s act) (hnew : act.newFork = some x) :
    ∀ m ∈ s.flight home x y, m.tellsEnd = false := by
  intro m hm
  refine Bool.eq_false_iff.mpr fun htell => ?_
  have hsender : m.route.map Prod.fst = some x := by rw [Sys.route_of_mem_flight hm]; rfl
  rcases mem_append.mp hm with hm | hm
  · exact hok x hnew _ m (mem_append_left _ (mem_between.mp hm).1) htell hsender
  · exact hok x hnew _ m (mem_append_right _ (mem_between.mp hm).1) htell hsender

/-- The fork `x` acts. -/
private theorem NotTold.acts (hv : NotTold v) (h : Acts home s act x y v v')
    (hok : CleanReuse s act) : NotTold v' := by
  intro hl
  cases h with
  | phase hp => exact hv (hp.live hl)
  | born _ _ hxy _ ha =>
    change ∀ m ∈ v.xy, _
    rw [hxy]
    rcases ha with rfl | ⟨l, o, rfl, -⟩
    · exact not_told_of_cleanReuse hok rfl
    · exact not_told_of_cleanReuse hok rfl
  | link hp hr | unlink hp hr | watch hp hr | unwatch hp hr =>
    have hold := hv ⟨hp, by rw [hr]; exact some_ne_none _⟩
    exact tellsEnd_append hold fun m hm => by rw [mem_singleton.mp hm]; rfl
  | recv hp hr => exact hv ⟨hp, by rw [hr]; exact some_ne_none _⟩
  | refuse _ hr => exact absurd hr hl.2
  | drain hp => exact nomatch hp.symm.trans hl.1
  | gone => exact absurd rfl hl.2
  | lost _ hxy =>
    have hold := hv hl
    rw [hxy] at hold
    intro m hm
    exact hold m ((mem_append.mp hm).elim (mem_append_left _)
      fun hm => mem_append_right _ (mem_cons_of_mem _ hm))
  | @terminate q o hxy =>
    have hold := hv hl
    rw [hxy] at hold
    intro m hm
    rcases mem_append.mp hm with hm | hm
    · exact hold m (mem_append_left _ hm)
    · rcases mem_cons.mp hm with rfl | hm
      · rfl
      · exact hold m (mem_append_right _ hm)

/-- The fork that may be told acts. -/
private theorem NotTold.acts_peer (hv : NotTold v.swap) (h : Acts home s act x y v v') :
    NotTold v'.swap := by
  intro hl
  cases h with
  | phase _ hq => exact hv (hq.live hl)
  | recv _ _ _ hyx | refuse _ _ _ hyx | drain _ _ hyx =>
    have hold : ∀ m ∈ v.yx, m.tellsEnd = false := hv hl
    rw [hyx] at hold
    exact fun m hm => hold m (mem_cons_of_mem _ hm)
  | lost _ _ _ hp => exact absurd hl.1 hp.1
  | _ => exact hv hl

end Acts

open Sys

variable {ι : Type*} {home : Address → ι} {s s' : Sys ι} {act : Action ι} {f p : Address}

/-- In this step the container of `f` handles an `Exit` or a `Down` that names `p`, for `f`. -/
def Told (home : Address → ι) (s : Sys ι) (act : Action ι) (f p : Address) : Prop :=
  ∃ o m, act = .task (home f) (.recv o) ∧ (s (home f)).rxSystem.head? = some m ∧
    m.route = some (p, f) ∧ m.tellsEnd = true

/-- **A fork is told the truth about an address.** As long as an address is given to a new fork
only when no `Exit` and no `Down` naming it is on its way, a container that handles such a
message for one of its forks does so when the address has no live holder: whichever holder the
fork linked to or watched has ended. -/
theorem not_live_of_told [DecidableEq ι] (hne : f ≠ p)
    (h : Reaches (step home) CleanReuse init s) (htold : Told home s act f p) :
    ¬ Live home s p := by
  have hinv : Wf home s ∧ NotTold (s.view home p f) := by
    refine h.invariant (P := fun s => Wf home s ∧ NotTold (s.view home p f))
      ⟨.init, fun hl => nomatch hl.1⟩ fun hinv hok hs => ⟨hinv.1.step hs, ?_⟩
    exact (view_step hinv.1 hne.symm hs).keeps hinv.2 (fun hacts hv => hv.acts hacts hok)
      fun hacts hv => hv.acts_peer hacts
  obtain ⟨o, m, -, hhead, hroute, htell⟩ := htold
  intro hlive
  have hmem : m ∈ s.flight home p f :=
    mem_append_left _ (mem_between.mpr ⟨mem_of_mem_head? hhead, hroute⟩)
  have hhalf : (s.half home p f).Live := ⟨hlive.1, fun hnone => hlive.2 (map_eq_none_iff.mp hnone)⟩
  rw [hinv.2 hhalf m hmem] at htell
  exact Bool.false_ne_true htell

/-- The address of a fork that ended is used again after its `Exit` was handled. -/
theorem not_live_of_told_reused :
    ∃ s : Sys Bool, Reaches (step splitHome) CleanReuse init s ∧
      (s false).log.count (.handledExit ⟨1#64⟩ ⟨17#64⟩ .normal) = 1 ∧
      Told splitHome s (.task false (.recv {})) ⟨1#64⟩ ⟨17#64⟩ ∧ ¬ Live splitHome s ⟨17#64⟩ := by
  have hreach : Reaches (step splitHome) CleanReuse init _ := reaches_get
    [.task false (.create ⟨1#64⟩ ∅ []), .task true (.create ⟨16#64⟩ ∅ []),
      .task true (.call (.forkAdded ⟨17#64⟩)), .task false (.call (.link ⟨1#64⟩ ⟨17#64⟩)),
      .flush false false, .task true (.recv {}), .task true (.dropFork ⟨17#64⟩),
      .task true (.recv { peers := [⟨1#64⟩] }), .flush true false, .task false (.recv {}),
      .task true (.call (.forkAdded ⟨17#64⟩)), .task false (.call (.link ⟨1#64⟩ ⟨17#64⟩)),
      .flush false false, .task true (.recv {}), .task true (.dropFork ⟨17#64⟩),
      .task true (.recv { peers := [⟨1#64⟩] }), .flush true false] (by decide)
  refine ⟨_, hreach, by decide, (and_iff_left_of_imp (not_live_of_told (by decide) hreach)).mpr ?_⟩
  exact ⟨{}, .link (.exit ⟨17#64⟩ ⟨1#64⟩ .normal), rfl, by decide, rfl, rfl⟩

/-- **A fork is told about the previous holder.** A subnet of two addresses gives the address of
a sub-fork out again as soon as that fork has ended. A fork that was linked to the previous
holder and watched it links to the new one and watches it, and is then told that it went down,
while the new holder is alive all the time. -/
theorem told_of_previous_holder :
    (∀ ops ∈ [[], [Pool.Op.drop 1, .lease .max]],
      (Pool.run ⟨⟨16#64⟩, ⟨63, by decide⟩⟩ ([.lease .max, .lease .max] ++ ops)).map
        Pool.State.live = some [⟨⟨16#64⟩, .max⟩, ⟨⟨17#64⟩, .max⟩]) ∧
    ∃ s₁ s₂ : Sys Bool, Reachable splitHome s₁ ∧
      Reaches (step splitHome) (fun s _ => Live splitHome s ⟨17#64⟩) s₁ s₂ ∧
      Live splitHome s₂ ⟨17#64⟩ ∧ ¬ LinkedTo splitHome s₂ ⟨1#64⟩ ⟨17#64⟩ ∧
      (s₂ false).log = (s₁ false).log ++
        [.linked ⟨1#64⟩ ⟨17#64⟩, .watched ⟨1#64⟩ ⟨17#64⟩ 1#64,
          .handledExit ⟨1#64⟩ ⟨17#64⟩ .normal, .exited ⟨1#64⟩ ⟨17#64⟩ true,
          .down ⟨1#64⟩ ⟨17#64⟩ 0#64 true, .down ⟨1#64⟩ ⟨17#64⟩ 1#64 true] := by
  refine ⟨by decide, _, _, reaches_get
    [.task false (.create ⟨1#64⟩ ∅ []), .task false (.call (.trapExit true)),
      .task true (.create ⟨16#64⟩ ∅ []), .task true (.call (.forkAdded ⟨17#64⟩)),
      .task false (.call (.link ⟨1#64⟩ ⟨17#64⟩)), .flush false false, .task true (.recv {}),
      .task false (.call (.watch ⟨1#64⟩ ⟨17#64⟩)), .flush false false, .task true (.recv {}),
      .task true (.dropFork ⟨17#64⟩),
      .task true (.recv { peers := [⟨1#64⟩], watchers := [⟨1#64⟩] }), .flush true false,
      .flush true false, .task true (.call (.forkAdded ⟨17#64⟩))] (by decide), reaches_get
    [.task false (.call (.link ⟨1#64⟩ ⟨17#64⟩)), .task false (.call (.watch ⟨1#64⟩ ⟨17#64⟩)),
      .flush false false, .task false (.recv {}),
      .task false (.recv { refs := [0#64, 1#64] })] (by decide), ?_, ?_, ?_⟩
  · decide
  · decide
  · decide

end Mm1
