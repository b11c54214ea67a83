import Mm1.Lib.Mirror
import Mm1.Runtime.Pair

/-!
# Links between two live forks

Each side keeps its own `linked_to` and tells the other with `Connect` and `Disconnect`. The two
sides agree as long as opposite messages do not cross (`linkedTo_iff_of_orderly`). When a
`Connect` and a `Disconnect` cross, the link stays one-sided (`linkedTo_one_sided`).
-/

namespace Mm1

open Settle Transition Option List

/-- How a message writes "the receiver is linked to the sender". -/
def writesLink : SysMsg → Option Bool
  | .link (.connect _ _) => some true
  | .link (.disconnect _ _) => some false
  | .link (.exit _ _ .terminate) => none
  | .link (.exit _ _ _) => some false
  | _ => none

/-- The sender has ended, or was never there. -/
def SysMsg.isExit : SysMsg → Bool
  | .link (.exit _ _ .terminate) => false
  | .link (.exit _ _ _) => true
  | _ => false

theorem Rel.linked_recv (r : Rel) (m : SysMsg) :
    (r.recv m).linked = (writesLink m).getD r.linked := by
  cases m with
  | kill | forkDone => rfl
  | link l =>
    cases l with
    | connect | disconnect => rfl
    | exit _ _ reason => cases reason <;> rfl
  | watch w => cases w <;> rfl

namespace Sys

variable {ι : Type*} {home : Address → ι} {s s' : Sys ι} {act : Action ι} {a b x y : Address}
  {v v' : View} {m : SysMsg}

/-- `b` is in the `linked_to` set of `a`. -/
def LinkedTo (home : Address → ι) (s : Sys ι) (a b : Address) : Prop :=
  ∃ e, (s (home a)).jobEntries a = some e ∧ b ∈ e.linkedTo

instance (home : Address → ι) (s : Sys ι) (a b : Address) : Decidable (LinkedTo home s a b) :=
  match h : (s (home a)).jobEntries a with
  | none => isFalse fun ⟨_, he, _⟩ => nomatch h.symm.trans he
  | some e => decidable_of_iff (b ∈ e.linkedTo)
      ⟨fun hb => ⟨e, h, hb⟩, fun ⟨_, he, hb⟩ => some.inj (h.symm.trans he) ▸ hb⟩

/-- No `Connect` and no `Disconnect` from `x` to `y` is in flight. -/
def NoLinkMessage (home : Address → ι) (s : Sys ι) (x y : Address) : Prop :=
  .link (.connect x y) ∉ flight home s x y ∧ .link (.disconnect x y) ∉ flight home s x y

instance (home : Address → ι) (s : Sys ι) (x y : Address) : Decidable (NoLinkMessage home s x y) :=
  inferInstanceAs (Decidable (_ ∧ _))

/-- A call about the other fork of the pair does not cross an opposite message of it: a new link
is not made while a `Disconnect` of the peer is in flight, and a link is not given up while a
`Connect` of the peer is in flight. -/
def Orderly (home : Address → ι) (s : Sys ι) (x y : Address) (act : Action ι) : Prop :=
  (act.call? = some (.link x y) → ¬ LinkedTo home s x y →
    .link (.disconnect y x) ∉ flight home s y x) ∧
  (act.call? = some (.unlink x y) → LinkedTo home s x y → .link (.connect y x) ∉ flight home s y x)

instance (home : Address → ι) (s : Sys ι) (x y : Address) (act : Action ι) :
    Decidable (Orderly home s x y act) :=
  inferInstanceAs (Decidable (_ ∧ _))

/-- Both forks are alive and neither crosses the other. -/
def OrderlyStep (home : Address → ι) (a b : Address) (s : Sys ι) (act : Action ι) : Prop :=
  Live home s a ∧ Live home s b ∧ Orderly home s a b act ∧ Orderly home s b a act

instance (home : Address → ι) (a b : Address) (s : Sys ι) (act : Action ι) :
    Decidable (OrderlyStep home a b s act) :=
  inferInstanceAs (Decidable (_ ∧ _ ∧ _ ∧ _))

/-- While both forks are alive, the two sides mirror each other, and nothing but `Connect` and
`Disconnect` is on its way that would change a link. -/
def LinkMirror (v : View) : Prop :=
  v.x.phase = .running → v.y.phase = .running → ∀ r r', v.x.rel = some r → v.y.rel = some r' →
    Mirror writesLink r.linked r'.linked v.xy v.yx ∧ ∀ m ∈ v.xy ++ v.yx, m.isExit = false

private theorem LinkMirror.swap (h : LinkMirror v) : LinkMirror v.swap := by
  intro hx hy r r' hr hr'
  obtain ⟨hmirror, hexit⟩ := h hy hx r' r hr' hr
  exact ⟨hmirror.symm, fun m hm => hexit m (mem_append.mpr (mem_append.mp hm).symm)⟩

private theorem eq_of_writesLink_true (hm : m.route = some (x, y)) (h : writesLink m = some true) :
    m = .link (.connect x y) := by
  unfold writesLink at h
  split at h
  case h_1 =>
    cases hm
    rfl
  all_goals contradiction

private theorem eq_of_writesLink_false (hm : m.route = some (x, y)) (hexit : m.isExit = false)
    (h : writesLink m = some false) : m = .link (.disconnect x y) := by
  cases m with
  | kill | forkDone | watch w => contradiction
  | link l =>
    cases l with
    | connect => exact nomatch h
    | disconnect =>
      cases hm
      rfl
    | exit _ _ reason =>
      cases reason with
      | terminate | normal | linkDown => contradiction

/-- A message that changes no link joins the others. -/
private theorem isExit_insert {l l' yx : List SysMsg} (hm : m.isExit = false)
    (h : ∀ m ∈ (l ++ l') ++ yx, m.isExit = false) :
    ∀ m' ∈ (l ++ m :: l') ++ yx, m'.isExit = false := by
  intro m' hm'
  simp only [mem_append, mem_cons] at h hm'
  rcases hm' with (hm' | rfl | hm') | hm'
  · exact h m' (.inl (.inl hm'))
  · exact hm
  · exact h m' (.inl (.inr hm'))
  · exact h m' (.inr hm')

theorem linkedTo_of_half {r : Rel} (hr : (half home s x y).rel = some r) :
    LinkedTo home s x y ↔ r.linked = true := by
  obtain ⟨e, he, rfl⟩ := map_eq_some_iff.mp hr
  rw [JobEntry.rel_linked]
  exact ⟨fun ⟨e', he', hy⟩ => some.inj (he.symm.trans he') ▸ hy, fun hy => ⟨e, he, hy⟩⟩

/-- One side acts. -/
private theorem LinkMirror.acts (hv : LinkMirror v) (h : Acts home s act x y v v')
    (hborn : ¬ (act = .task (home x) (.call (.forkAdded x)) ∨
      ∃ l o, act = .task (home x) (.create x l o))) (hord : Orderly home s x y act) :
    LinkMirror v' := by
  intro hx hy r₁ r₁' hr₁ hr₁'
  cases h with
  | phase hp hq =>
    have hrun : v.x.phase = .running := by
      rcases hp with hp | ⟨-, hp⟩
      · exact hp.symm.trans hx
      · exact nomatch (hp hx).symm.trans hr₁
    have hrun' : v.y.phase = .running := by
      rcases hq with hq | ⟨-, hq⟩
      · exact hq.symm.trans hy
      · exact nomatch (hq hy).symm.trans hr₁'
    exact hv hrun hrun' r₁ r₁' hr₁ hr₁'
  | born _ _ _ _ ha => exact absurd (ha.imp_right fun ⟨l, o, h, _⟩ => ⟨l, o, h⟩) hborn
  | @link r hp hr hl hyx ha =>
    cases hr₁
    obtain ⟨hmirror, hexit⟩ := hv hx hy r r₁' hr hr₁'
    rcases ha with ⟨rfl, hhalf⟩ | ha
    · rw [hhalf] at hr
      have hcross := hord.1 rfl (by rw [linkedTo_of_half hr, hl]; exact Bool.false_ne_true)
      rw [hl] at hmirror
      refine ⟨hmirror.send (b := true) rfl fun m hm hw => ?_, ?_⟩
      · have hm' := hm
        rw [hyx] at hm'
        rw [eq_of_writesLink_false (route_of_mem_flight hm')
          (hexit m (mem_append_right _ hm)) hw] at hm'
        exact hcross hm'
      · rw [← append_nil v.xy] at hexit
        exact isExit_insert rfl hexit
    · exact absurd (.inr ha) hborn
  | @unlink r hp hr hl hyx ha =>
    cases hr₁
    obtain ⟨hmirror, hexit⟩ := hv hx hy r r₁' hr hr₁'
    obtain ⟨rfl, hhalf⟩ := ha
    rw [hhalf] at hr
    have hcross := hord.2 rfl (by rw [linkedTo_of_half hr, hl])
    rw [hl] at hmirror
    refine ⟨hmirror.send (b := false) rfl fun m hm hw => ?_, ?_⟩
    · rw [hyx] at hm
      rw [eq_of_writesLink_true (route_of_mem_flight hm) hw] at hm
      exact hcross hm
    · rw [← append_nil v.xy] at hexit
      exact isExit_insert rfl hexit
  | @watch r ref hp hr =>
    cases hr₁
    obtain ⟨hmirror, hexit⟩ := hv hx hy r r₁' hr hr₁'
    rw [← append_nil v.xy] at hmirror hexit
    exact ⟨hmirror.insert rfl, isExit_insert rfl hexit⟩
  | @unwatch r ref hp hr =>
    cases hr₁
    obtain ⟨hmirror, hexit⟩ := hv hx hy r r₁' hr hr₁'
    rw [← append_nil v.xy] at hmirror hexit
    exact ⟨hmirror.insert rfl, isExit_insert rfl hexit⟩
  | @recv r m rest hp hr hm hyx =>
    cases hr₁
    obtain ⟨hmirror, hexit⟩ := hv hx hy r r₁' hr hr₁'
    rw [hyx] at hmirror hexit
    refine ⟨?_, fun m' hm' => hexit m' ?_⟩
    · rw [Rel.linked_recv]
      exact hmirror.recv
    · rcases mem_append.mp hm' with hm' | hm'
      · exact mem_append_left _ hm'
      · exact mem_append_right _ (mem_cons_of_mem _ hm')
  | refuse hp hr => exact nomatch hr.symm.trans hr₁
  | drain hp => exact nomatch hp.symm.trans hx
  | gone => contradiction
  | lost _ _ _ hp => exact absurd hy hp.1
  | @terminate q o hxy ha =>
    obtain ⟨hmirror, hexit⟩ := hv hx hy r₁ r₁' hr₁ hr₁'
    rw [hxy] at hmirror hexit
    exact ⟨hmirror.insert rfl, isExit_insert rfl hexit⟩

variable [DecidableEq ι]

/-- An orderly step keeps the two sides mirrored. -/
private theorem LinkMirror.step (hw : Wf home s) (hab : a ≠ b) (hok : OrderlyStep home a b s act)
    (h : s.step home act = some s') (hv : LinkMirror (view home s a b)) :
    LinkMirror (view home s' a b) := by
  obtain ⟨hlive, hlive', hord, hord'⟩ := hok
  have hne : s.step home act ≠ none := by rw [h]; exact some_ne_none s'
  refine (view_step hw hab h).keeps hv (fun hacts hv => ?_) (fun hacts hv => ?_)
  · exact hv.acts hacts (not_born_of_live hlive hne) hord
  · exact (LinkMirror.acts hv.swap hacts (not_born_of_live hlive' hne) hord').swap

omit [DecidableEq ι] in
private theorem quiet_of_noLinkMessage (h : NoLinkMessage home s x y)
    (hexit : ∀ m ∈ flight home s x y, m.isExit = false) :
    Quiet writesLink (flight home s x y) := by
  intro m hm
  have hroute := route_of_mem_flight hm
  by_contra hne
  obtain ⟨c, hc⟩ := ne_none_iff_exists'.mp hne
  cases c with
  | true => exact h.1 (eq_of_writesLink_true hroute hc ▸ hm)
  | false => exact h.2 (eq_of_writesLink_false hroute (hexit m hm) hc ▸ hm)

end Sys

open Sys

variable {ι : Type*} {home : Address → ι} {a b : Address}

/-- **Links agree when opposite messages do not cross.** Two forks of different containers start
without a message between them and with links that agree. In every run in which they stay alive,
no new link is made while a `Disconnect` of the peer is in flight, and no link is given up while
a `Connect` of the peer is in flight: whenever no such message is in flight, each is linked to
the other or neither is. -/
theorem linkedTo_iff_of_orderly [DecidableEq ι] {s₀ s : Sys ι} (hab : home a ≠ home b)
    (h₀ : Reachable home s₀) (hxy₀ : flight home s₀ a b = []) (hyx₀ : flight home s₀ b a = [])
    (hagree₀ : LinkedTo home s₀ a b ↔ LinkedTo home s₀ b a)
    (h : Reaches (step home) (OrderlyStep home a b) s₀ s) (hlive : Live home s a)
    (hlive' : Live home s b) (hquiet : NoLinkMessage home s a b)
    (hquiet' : NoLinkMessage home s b a) : LinkedTo home s a b ↔ LinkedTo home s b a := by
  have hne : a ≠ b := fun heq => hab (congrArg home heq)
  have hwf₀ : Wf home s₀ := h₀.invariant .init fun hw _ hs => hw.step hs
  have hstart : LinkMirror (view home s₀ a b) := by
    intro _ _ r r' hr hr'
    have hlinked : r.linked = r'.linked := by
      rw [Bool.eq_iff_iff, ← linkedTo_of_half hr, ← linkedTo_of_half hr']
      exact hagree₀
    have hnil : (view home s₀ a b).xy ++ (view home s₀ a b).yx = [] := by
      simp only [view, hxy₀, hyx₀, append_nil]
    refine ⟨hlinked ▸ Mirror.start ?_ ?_, fun m hm => absurd (hnil ▸ hm) not_mem_nil⟩
    · simp only [view, hxy₀, Quiet, not_mem_nil, false_imp_iff, implies_true]
    · simp only [view, hyx₀, Quiet, not_mem_nil, false_imp_iff, implies_true]
  have hinv : Wf home s ∧ LinkMirror (view home s a b) :=
    h.invariant (P := fun s => Wf home s ∧ LinkMirror (view home s a b)) ⟨hwf₀, hstart⟩
      fun hinv hok hs => ⟨hinv.1.step hs, hinv.2.step hinv.1 hne hok hs⟩
  obtain ⟨e, he⟩ := ne_none_iff_exists'.mp hlive.2
  obtain ⟨e', he'⟩ := ne_none_iff_exists'.mp hlive'.2
  have hr : (half home s a b).rel = some (e.rel b) := by rw [half, he, map_some]
  have hr' : (half home s b a).rel = some (e'.rel a) := by rw [half, he', map_some]
  obtain ⟨hmirror, hexit⟩ := hinv.2 hlive.1 hlive'.1 _ _ hr hr'
  rw [linkedTo_of_half hr, linkedTo_of_half hr', hmirror.eq_of_quiet
    (quiet_of_noLinkMessage hquiet fun m hm => hexit m (mem_append_left _ hm))
    (quiet_of_noLinkMessage hquiet' fun m hm => hexit m (mem_append_right _ hm))]

/-- Two containers with one fork each. -/
def twoActors : Sys Bool :=
  (exec (step splitHome) (fun _ _ => True) init
    [.task false (.create ⟨1#64⟩ ∅ []), .task true (.create ⟨17#64⟩ ∅ [])]).get (by decide)

private theorem reachable_twoActors : Reachable splitHome twoActors := reaches_get _ _

/-- One fork links to the other, and the other one unlinks after it has handled the `Connect`. -/
theorem linkedTo_iff_of_orderly_unlink :
    ∃ s₀ s : Sys Bool, Reachable splitHome s₀ ∧
      Reaches (step splitHome) (OrderlyStep splitHome ⟨1#64⟩ ⟨17#64⟩) s₀ s ∧
      (LinkedTo splitHome s ⟨1#64⟩ ⟨17#64⟩ ↔ LinkedTo splitHome s ⟨17#64⟩ ⟨1#64⟩) := by
  have hreach : Reaches (step splitHome) (OrderlyStep splitHome ⟨1#64⟩ ⟨17#64⟩) twoActors _ :=
    reaches_get [.task false (.call (.link ⟨1#64⟩ ⟨17#64⟩)), .flush false false,
      .task true (.recv {}), .task true (.call (.unlink ⟨17#64⟩ ⟨1#64⟩)), .flush true false,
      .task false (.recv {})]
    (by decide)
  exact ⟨_, _, reachable_twoActors, hreach, linkedTo_iff_of_orderly (by decide) reachable_twoActors
    (by decide) (by decide) (by decide) hreach (by decide) (by decide) (by decide) (by decide)⟩

/-- A call of one of the two forks to link to the other or to unlink from it, or the delivery of
a message. -/
def linkAction (a b : Address) : Action ι → Bool
  | .task _ (.call (.link x y)) | .task _ (.call (.unlink x y)) =>
    (x = a ∧ y = b) ∨ (x = b ∧ y = a)
  | .task _ (.recv _) | .flush _ _ => true
  | _ => false

/-- **A one-sided link.** Both forks link to each other and the second one unlinks at once. Its
`Disconnect` follows its `Connect`, while the `Connect` of the first fork is still in flight and
sets the link of the second one again. -/
theorem linkedTo_one_sided :
    ∃ s₀ s : Sys Bool, Reachable splitHome s₀ ∧
      flight splitHome s₀ ⟨1#64⟩ ⟨17#64⟩ = [] ∧ flight splitHome s₀ ⟨17#64⟩ ⟨1#64⟩ = [] ∧
      ¬ LinkedTo splitHome s₀ ⟨1#64⟩ ⟨17#64⟩ ∧ ¬ LinkedTo splitHome s₀ ⟨17#64⟩ ⟨1#64⟩ ∧
      Reaches (step splitHome) (fun _ act => linkAction ⟨1#64⟩ ⟨17#64⟩ act) s₀ s ∧
      Live splitHome s ⟨1#64⟩ ∧ Live splitHome s ⟨17#64⟩ ∧
      NoLinkMessage splitHome s ⟨1#64⟩ ⟨17#64⟩ ∧ NoLinkMessage splitHome s ⟨17#64⟩ ⟨1#64⟩ ∧
      ¬ (LinkedTo splitHome s ⟨1#64⟩ ⟨17#64⟩ ↔ LinkedTo splitHome s ⟨17#64⟩ ⟨1#64⟩) := by
  refine ⟨twoActors, _, reachable_twoActors, by decide, by decide, by decide, by decide, reaches_get
    [.task false (.call (.link ⟨1#64⟩ ⟨17#64⟩)), .task true (.call (.link ⟨17#64⟩ ⟨1#64⟩)),
      .flush true false, .task true (.call (.unlink ⟨17#64⟩ ⟨1#64⟩)), .flush true false,
      .flush false false, .task true (.recv {}), .task false (.recv {}),
      .task false (.recv {})] (by decide), ?_⟩
  decide

end Mm1
