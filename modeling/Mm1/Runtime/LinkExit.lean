import Mm1.Lib.Pending
import Mm1.Runtime.LinkAgree

/-!
# The end of a linked fork reaches every live peer

Without `unlink`, and when addresses are not reused, a link can only be cleared by an `Exit`. A
`Connect` may find its fork alive, gone while its container still runs, gone with the closed
queue, or it may fail at `sys_send`; each time but the first an `Exit` goes back.

* `ExitPending`: seen from a fork that is not on its way out, one of these routes is open for
  every link it has or is going to have;
* `Container.LinkLogged`: a link that is made and not answered by an `Exit` is still there;
* `exit_handled_of_live`: once the peer has ended and all messages are processed, each live fork
  has handled an `Exit` after its last step that made a link, and no link is left.
-/

namespace Mm1

open Settle Transition Option List

/-! ### One end of the pair -/

/-- Whether the fork is linked to the other one. -/
def Half.linked (h : Half) : Bool :=
  match h.rel with
  | none => false
  | some r => r.linked

variable {h : Half} {r : Rel}

theorem Half.linked_of_none (hr : h.rel = none) : h.linked = false := by
  rw [linked, hr]

theorem Half.linked_of_some (hr : h.rel = some r) : h.linked = r.linked := by
  rw [linked, hr]

/-- The fork has not ended and its container is not on its way out. -/
def Half.Stays (h : Half) : Prop := h.ended = false ∧ (h.phase = .absent ∨ h.phase = .running)

private theorem Half.Next.stays {p : Phase} (hnext : h.Next p) (hs : { h with phase := p }.Stays) :
    h.Stays := by
  refine ⟨hs.1, ?_⟩
  rcases hnext with rfl | ⟨hnext, -⟩
  · exact hs.2
  · rcases hs.2 with rfl | rfl
    · exact absurd hnext Phase.not_next_absent
    · exact .inl (Phase.eq_absent_of_next hnext)

/-- A fork that has ended has no entry. -/
def Half.Fresh (h : Half) : Prop := h.ended = true → h.rel = none

private theorem Half.Fresh.ended (hf : h.Fresh) (hr : h.rel = some r) : h.ended = false :=
  Bool.eq_false_iff.mpr fun hend => nomatch (hf hend).symm.trans hr

/-! ### Steps without `unlink` and without reuse of addresses -/

/-- The call is not `unlink`, and a fork that is added has an address that no fork had before. -/
def SysCall.steady (ended : Address → Bool) : SysCall → Bool
  | .unlink _ _ => false
  | .forkAdded f => !ended f
  | _ => true

def Steady {ι : Type*} (home : Address → ι) (s : Sys ι) (act : Action ι) : Prop :=
  ∀ call ∈ act.call?, call.steady fun f => (s (home f)).endedForks f

instance {ι : Type*} (home : Address → ι) (s : Sys ι) (act : Action ι) :
    Decidable (Steady home s act) :=
  inferInstanceAs (Decidable (∀ call ∈ act.call?, _))

/-- What both ends of a pair keep: no `Disconnect` is in flight, and a fork does not come back. -/
structure NoUnlink (x y : Address) (v : View) : Prop where
  left : v.x.Fresh
  right : v.y.Fresh
  leftMsg : .link (.disconnect x y) ∉ v.xy
  rightMsg : .link (.disconnect y x) ∉ v.yx

private theorem NoUnlink.swap {x y : Address} {v : View} (h : NoUnlink x y v) :
    NoUnlink y x v.swap :=
  ⟨h.right, h.left, h.rightMsg, h.leftMsg⟩

/-- Seen from a fork `x` that stays: if its link to `y` is going to be set, an `Exit` will come
when `y` ends. -/
def ExitPending (v : View) : Prop :=
  v.x.Stays → Pending writesLink v.x.linked v.y.linked v.y.ended v.xy v.yx

section Acts

variable {ι : Type*} {home : Address → ι} {s : Sys ι} {act : Action ι} {x y : Address}
  {v v' : View} {m : SysMsg} {out : List SysMsg}

private theorem ended_of_born (hok : Steady home s act)
    (hend : v.x.ended = (s (home x)).endedForks x)
    (ha : act = .task (home x) (.call (.forkAdded x)) ∨
      ∃ l o, act = .task (home x) (.create x l o) ∧ v.x.ended = false) : v.x.ended = false := by
  rcases ha with rfl | ⟨-, -, -, hend⟩
  · rw [hend]
    exact Bool.not_eq_true' _ ▸ hok _ rfl
  · exact hend

private theorem not_unlink_of_steady {a b : Address} (hok : Steady home s act)
    (ha : act = .task (home x) (.call (.unlink a b))) : False := by
  subst ha
  exact nomatch hok _ rfl

private theorem answer_ne_disconnect {reason : ExitReason} {a b : Address} :
    .link (.disconnect a b) ∉ (m.answer reason).toList := by
  intro h
  rcases SysMsg.answer_cases (mem_toList.mp h) with ⟨_, _, -, h⟩ | ⟨_, _, _, -, h⟩
  · simp at h
  · simp at h

private theorem Rel.Farewell.ne_disconnect {b : Bool} {c d : Address} (h : r.Farewell x y b out) :
    .link (.disconnect c d) ∉ out := by
  intro hm
  rcases h.mem_cases hm with ⟨ref, h⟩ | h | h
  · simp at h
  · simp at h
  · simp at h

/-- No step brings a `Disconnect`. -/
private theorem NoUnlink.acts (hv : NoUnlink x y v) (h : Acts home s act x y v v')
    (hok : Steady home s act) : NoUnlink x y v' := by
  obtain ⟨hx, hy, hxy, hyx⟩ := hv
  cases h with
  | phase => exact ⟨hx, hy, hxy, hyx⟩
  | born _ _ _ hend ha =>
    exact ⟨fun h => absurd h (by simp [ended_of_born hok hend ha]), hy, hxy, hyx⟩
  | link _ hr => exact ⟨fun h => absurd h (by simp [hx.ended hr]), hy, by simp [hxy], hyx⟩
  | unlink _ _ _ _ ha => exact absurd ha.1 (not_unlink_of_steady hok)
  | watch _ hr => exact ⟨fun h => absurd h (by simp [hx.ended hr]), hy, by simp [hxy], hyx⟩
  | unwatch _ hr => exact ⟨fun h => absurd h (by simp [hx.ended hr]), hy, by simp [hxy], hyx⟩
  | recv _ hr _ hyx' =>
    rw [hyx'] at hyx
    exact ⟨fun h => absurd h (by simp [hx.ended hr]), hy, hxy, fun h => hyx (.tail _ h)⟩
  | refuse _ _ _ hyx' =>
    rw [hyx'] at hyx
    refine ⟨hx, hy, fun h => ?_, fun h => hyx (.tail _ h)⟩
    exact (mem_append.mp h).elim hxy answer_ne_disconnect
  | drain _ _ hyx' =>
    rw [hyx'] at hyx
    refine ⟨hx, hy, fun h => ?_, fun h => hyx (.tail _ h)⟩
    exact (mem_append.mp h).elim hxy answer_ne_disconnect
  | gone _ _ hout =>
    refine ⟨fun _ => rfl, hy, fun h => ?_, hyx⟩
    exact (mem_append.mp h).elim hxy hout.ne_disconnect
  | @lost m q o q' o' _ hxy' hyx' =>
    rw [hxy', mem_append, mem_cons] at hxy
    rw [hyx', mem_append] at hyx
    refine ⟨hx, hy, fun h => ?_, fun h => ?_⟩
    · exact hxy ((mem_append.mp h).imp_right .inr)
    · simp only [mem_append] at h
      rcases h with h | h | h
      · exact hyx (.inl h)
      · exact answer_ne_disconnect h
      · exact hyx (.inr h)
  | @terminate q o hxy' =>
    rw [hxy', mem_append] at hxy
    refine ⟨hx, hy, fun h => ?_, hyx⟩
    simp only [mem_append, mem_cons] at h
    rcases h with h | h | h
    · exact hxy (.inl h)
    · exact nomatch h
    · exact hxy (.inr h)

/-- The answer to a `Connect` is an `Exit`. -/
private theorem answers_of_answer (reason : ExitReason) (hreason : reason ≠ .terminate) :
    Answers writesLink m (m.answer reason).toList := by
  cases m with
  | kill | forkDone => exact ⟨rfl, rfl⟩
  | watch w => cases w <;> exact ⟨rfl, rfl⟩
  | link l =>
    cases l with
    | connect =>
      cases reason with
      | terminate => exact absurd rfl hreason
      | normal | linkDown => exact ⟨rfl, rfl⟩
    | disconnect => exact ⟨rfl, rfl⟩
    | exit _ _ reason' => cases reason' <;> exact ⟨rfl, rfl⟩

private theorem writes_of_not_isRequest {l : List SysMsg} (h : ∀ m ∈ l, ¬ m.IsRequest) :
    writes writesLink true l = 0 := by
  refine writes_eq_zero.mpr fun m hm hw => h m hm ?_
  unfold writesLink at hw
  split at hw
  case h_1 => trivial
  all_goals contradiction

/-- The last messages end a link once. -/
private theorem writes_farewell {b : Bool} (h : r.Farewell x y b out) :
    writes writesLink true out = 0 ∧
      writes writesLink false out = if r.linked = true then 1 else 0 := by
  obtain ⟨refs, -, rfl⟩ := h
  have hrefs : ∀ b, writes writesLink b
      (refs.map fun ref => SysMsg.watch (.unwatch x y ref)) = 0 := fun b => by
    simp [writes_eq_zero, writesLink]
  simp only [writes_append, hrefs]
  constructor
  · cases b <;> cases r.linked <;> by_cases hw : r.watchedBy = ∅ <;>
      simp [hw, sysLinkExitMessage, sysWatchDownMessage, ExitReason.ofNormal, writesLink]
  · cases b <;> cases r.linked <;> by_cases hw : r.watchedBy = ∅ <;>
      simp [hw, sysLinkExitMessage, sysWatchDownMessage, ExitReason.ofNormal, writesLink]

/-- The fork that stays acts. -/
private theorem ExitPending.acts (hv : ExitPending v) (h : Acts home s act x y v v')
    (hok : Steady home s act) : ExitPending v' := by
  intro hs
  cases h with
  | phase hp hq => exact hv (hp.stays hs)
  | born _ hr =>
    have hp := hv hs
    rwa [Half.linked_of_none hr] at hp
  | link _ hr hl => exact (hv hs).send rfl
  | unlink _ _ _ _ ha => exact (not_unlink_of_steady hok ha.1).elim
  | watch _ hr =>
    have hp := hv hs
    rw [Half.linked_of_some hr, ← append_nil v.xy] at hp
    exact hp.insert rfl
  | unwatch _ hr =>
    have hp := hv hs
    rw [Half.linked_of_some hr, ← append_nil v.xy] at hp
    exact hp.insert rfl
  | recv _ hr _ hyx =>
    have hp := hv hs
    rw [Half.linked_of_some hr, hyx] at hp
    rw [Half.linked_of_some rfl, Rel.linked_recv]
    exact hp.recv
  | refuse _ hr _ hyx =>
    have hp := hv hs
    rw [Half.linked_of_none hr, hyx, ← append_nil v.xy] at hp
    have hp' := hp.refuse (answers_of_answer .linkDown nofun)
    rw [append_nil] at hp'
    change Pending writesLink v.x.linked _ _ _ _
    rwa [Half.linked_of_none hr]
  | drain hp => exact absurd hs.2 (by simp [hp])
  | gone => exact nomatch hs.1
  | lost _ hxy hyx _ _ hreq =>
    have hp := hv hs
    rw [hxy, hyx] at hp
    exact hp.answer (answers_of_answer _ nofun) (writes_of_not_isRequest hreq)
  | terminate hxy =>
    have hp := hv hs
    rw [hxy] at hp
    exact hp.insert rfl

/-- The other fork acts. -/
private theorem ExitPending.acts_peer (hv : ExitPending v.swap) (hfresh : NoUnlink x y v)
    (h : Acts home s act x y v v') (hok : Steady home s act) : ExitPending v'.swap := by
  intro hs
  cases h with
  | phase hp hq => exact hv (hq.stays hs)
  | born _ hr =>
    have hp := hv hs
    rwa [View.swap, Half.linked_of_none hr] at hp
  | link _ hr hl =>
    have hp := hv hs
    rw [View.swap, Half.linked_of_some hr, hl, hfresh.left.ended hr] at hp
    have hp' := hp.send' (m := .link (.connect x y)) rfl
    rwa [← hfresh.left.ended hr] at hp'
  | unlink _ _ _ _ ha => exact (not_unlink_of_steady hok ha.1).elim
  | watch _ hr =>
    have hp := hv hs
    rw [View.swap, Half.linked_of_some hr, ← append_nil v.xy] at hp
    exact hp.insert' rfl
  | unwatch _ hr =>
    have hp := hv hs
    rw [View.swap, Half.linked_of_some hr, ← append_nil v.xy] at hp
    exact hp.insert' rfl
  | @recv r m rest _ hr _ hyx =>
    have hp := hv hs
    rw [View.swap, Half.linked_of_some hr, hyx] at hp
    have hp' := hp.recv'
    rwa [← Rel.linked_recv] at hp'
  | @refuse m rest _ _ _ hyx =>
    have hp := hv hs
    rw [View.swap, hyx] at hp
    exact hp.answer_head (answers_of_answer .linkDown nofun)
  | @drain m rest b _ _ hyx =>
    have hp := hv hs
    rw [View.swap, hyx] at hp
    exact hp.answer_head (answers_of_answer _ (ExitReason.ofNormal_ne_terminate b))
  | gone _ hr hout =>
    have hp := hv hs
    rw [View.swap, Half.linked_of_some hr] at hp
    exact hp.leave (writes_farewell hout).1 (writes_farewell hout).2
  | lost _ hxy hyx hphase habsent =>
    have hp := hv hs
    obtain ⟨hr, rfl⟩ := habsent (hs.2.resolve_right hphase.1)
    rw [View.swap, Half.linked_of_none hr, hxy, hyx] at hp
    have hp' := hp.refuse (answers_of_answer .linkDown nofun)
    rwa [← Half.linked_of_none hr] at hp'
  | terminate hxy =>
    have hp := hv hs
    rw [View.swap, hxy] at hp
    exact hp.insert' rfl

end Acts

/-! ### What a container has noted about its links -/

/-- How an event writes "a link of `a` to `b` was made and not answered since". -/
def Event.writesLink (a b : Address) : Event → Option Bool
  | .linked x y | .connected x y => if x = a ∧ y = b then some true else none
  | .handledExit x y reason =>
    if x = a ∧ y = b ∧ reason ≠ .terminate then some false else none
  | _ => none

/-- Events about another fork say nothing about the links of `a`. -/
private theorem Event.writesLink_of_fork_ne {a b : Address} {ev : Event} (h : ev.fork ≠ some a) :
    ev.writesLink a b = none := by
  cases ev with
  | linked x y | connected x y | handledExit x y reason =>
    exact if_neg fun hx => h (congrArg some hx.1)
  | _ => rfl

/-- After each step that made a link of `a` to `b`, an `Exit` from `b` was handled. -/
def Answered (a b : Address) (log : List Event) : Prop :=
  ∀ pre ev post, log = pre ++ ev :: post → ev = .linked a b ∨ ev = .connected a b →
    ∃ reason, reason ≠ .terminate ∧ .handledExit a b reason ∈ post

variable {a b f : Address}

/-- The log answers each link. -/
private theorem answered_of_settle {log : List Event}
    (h : settle (Event.writesLink a b) false log = false) : Answered a b log := by
  rintro pre ev post rfl hev
  have hset : Event.writesLink a b ev = some true := by
    rcases hev with rfl | rfl
    · simp [Event.writesLink]
    · simp [Event.writesLink]
  by_contra hnone
  rw [settle_append, settle_cons, hset, getD_some, settle_const fun m hm hw => ?_] at h
  · exact Bool.false_ne_true h.symm
  · cases m with
    | handledExit x y reason =>
      simp only [Event.writesLink, ite_none_right_eq_some] at hw
      obtain ⟨⟨rfl, rfl, hreason⟩, -⟩ := hw
      exact hnone ⟨reason, hreason, hm⟩
    | linked | connected => simp [Event.writesLink] at hw
    | _ => contradiction

namespace Container

variable {ι : Type*} [DecidableEq ι] {home : Address → ι} {c : ι} {k k' : Container}
  {t : TaskAction} {inp out : List SysMsg} {e' : Option JobEntry} {events : List Event}
  {p : Phase}

/-- As long as `a` has not ended, a link to `b` that was made and not answered is there. -/
def LinkLogged (k : Container) (a b : Address) : Prop :=
  .ended a ∉ k.log → settle (Event.writesLink a b) false k.log = true →
    ∃ e, k.jobEntries a = some e ∧ b ∈ e.linkedTo

omit [DecidableEq ι] in
/-- Nothing is noted about `a` and its entry stays. -/
private theorem LinkLogged.frame (h : LinkLogged k a b) (hlog : k'.log = k.log ++ events)
    (hevents : ∀ ev ∈ events, ev.writesLink a b = none)
    (he : ∀ e, k.jobEntries a = some e → b ∈ e.linkedTo →
      ∃ e', k'.jobEntries a = some e' ∧ b ∈ e'.linkedTo) : LinkLogged k' a b := by
  intro hend hset
  rw [hlog, mem_append] at hend
  rw [hlog, settle_append, settle_of_silent hevents] at hset
  obtain ⟨e, hk, hb⟩ := h (fun hmem => hend (.inl hmem)) hset
  exact he e hk hb

omit [DecidableEq ι] in
/-- A fork without an entry has no link that is not answered. -/
private theorem LinkLogged.settle_of_none (h : LinkLogged k a b) (hend : .ended a ∉ k.log)
    (he : k.jobEntries a = none) : settle (Event.writesLink a b) false k.log = false :=
  Bool.eq_false_iff.mpr fun hset => by
    obtain ⟨e, he', -⟩ := h hend hset
    rw [he] at he'
    contradiction

omit [DecidableEq ι] in
/-- The fork handles a message. -/
private theorem LinkLogged.recv {e : JobEntry} {m : SysMsg} {z : Address} {o : Order}
    (h : LinkLogged k a b)
    (hk : k'.jobEntries = Function.update k.jobEntries a (some (e.recv m)))
    (hlog : k'.log = k.log ++ e.recvEvents k.trapExit o m) (he : k.jobEntries a = some e)
    (hm : m.route = some (z, a)) (hdis : m ≠ .link (.disconnect b a)) : LinkLogged k' a b := by
  have hentry : k'.jobEntries a = some (e.recv m) := by rw [hk, Function.update_self]
  have hkeep : ∀ {e₁ : JobEntry}, k.jobEntries a = some e₁ → e₁ = e := fun h₁ =>
    some.inj (h₁.symm.trans he)
  cases m with
  | kill | forkDone => contradiction
  | watch w =>
    refine h.frame hlog ?_ fun e₁ h₁ hb => ⟨_, hentry, ?_⟩
    · intro ev hev
      cases w with
      | watch | unwatch => exact absurd hev not_mem_nil
      | down =>
        obtain ⟨r, -, rfl⟩ := mem_map.mp hev
        rfl
    · obtain rfl := hkeep h₁
      cases w <;> exact hb
  | link l =>
    cases l with
    | connect x y =>
      cases hm
      by_cases hz : z = b
      · subst hz
        exact fun _ _ => ⟨_, hentry, Finset.mem_insert_self _ _⟩
      · refine h.frame hlog ?_ fun e₁ h₁ hb => ⟨_, hentry, ?_⟩
        · intro ev hev
          rw [mem_singleton.mp hev, Event.writesLink, if_neg fun h => hz h.2]
        · obtain rfl := hkeep h₁
          exact Finset.mem_insert_of_mem hb
    | disconnect x y =>
      cases hm
      have hz : b ≠ z := fun heq => hdis (heq ▸ rfl)
      refine h.frame hlog (fun ev hev => absurd hev not_mem_nil)
        fun e₁ h₁ hb => ⟨_, hentry, ?_⟩
      obtain rfl := hkeep h₁
      exact Finset.mem_erase_of_ne_of_mem hz hb
    | exit x y reason =>
      cases hm
      -- what follows `handledExit` is about the priority lane
      have htail : ∀ ev ∈ e.recvEvents k.trapExit o (.link (.exit z a reason)),
          ev = .handledExit a z reason ∨ ev.writesLink a b = none := by
        intro ev hev
        rw [JobEntry.recvEvents] at hev
        rcases mem_cons.mp hev with rfl | hev
        · exact .inl rfl
        · split at hev
          case isTrue =>
            rw [mem_singleton.mp hev]
            exact .inr rfl
          case isFalse => exact absurd hev not_mem_nil
      by_cases hans : z = b ∧ reason ≠ .terminate
      · obtain ⟨rfl, hreason⟩ := hans
        have hclear : Event.writesLink a z (.handledExit a z reason) = some false := by
          rw [Event.writesLink, if_pos ⟨rfl, rfl, hreason⟩]
        intro _ hset
        have hfalse : settle (Event.writesLink a z) false k'.log = false := by
          rw [hlog, settle_append]
          refine settle_written (fun ev hev => ?_) ⟨_, mem_cons_self, by simp [hclear]⟩
          rcases htail ev hev with rfl | hnone
          · simp [hclear]
          · simp [hnone]
        exact absurd (hset.symm.trans hfalse).symm Bool.false_ne_true
      · refine h.frame hlog (fun ev hev => ?_) fun e₁ h₁ hb => ⟨_, hentry, ?_⟩
        · rcases htail ev hev with rfl | hnone
          · exact if_neg fun h => hans h.2
          · exact hnone
        · obtain rfl := hkeep h₁
          cases reason with
          | terminate => exact hb
          | normal | linkDown =>
            exact Finset.mem_erase_of_ne_of_mem (fun heq => hans ⟨heq.symm, by simp⟩) hb

/-- **A container without `unlink` keeps its links until they are answered.** -/
theorem LinkLogged.act (hw : Wf home c k) (h : LinkLogged k a b)
    (hact : k.act home c t = some k') (hunlink : ∀ x y, t ≠ .call (.unlink x y))
    (hdis : .link (.disconnect b a) ∉ k.rxSystem) : LinkLogged k' a b := by
  rcases act_spec hw hact with hi | ⟨f, inp, e', out, events, -, hfocus, hstep⟩
  · have he : ∀ e, k.jobEntries a = some e → b ∈ e.linkedTo →
        ∃ e', k'.jobEntries a = some e' ∧ b ∈ e'.linkedTo := fun e he hb =>
      ⟨e, by rw [hi.entries, he], hb⟩
    generalize hlog' : k'.log = log
    cases hlog' ▸ hi.log with
    | none => exact h.frame (hlog'.trans (append_nil _).symm) nofun he
    | @linked x y e hx hy =>
      by_cases hxy : x = a ∧ y = b
      · obtain ⟨rfl, rfl⟩ := hxy
        exact fun _ _ => ⟨e, by rw [hi.entries, hx], hy⟩
      · refine h.frame hlog' (fun ev hev => ?_) he
        rw [mem_singleton.mp hev]
        exact if_neg hxy
    | unwatched =>
      refine h.frame hlog' (fun ev hev => ?_) he
      rw [mem_singleton.mp hev]
      rfl
  by_cases hf : f = a
  · subst hf
    have hentry : k'.jobEntries f = e' := by rw [hfocus.entries, Function.update_self]
    have hlog := hfocus.log
    -- an entry that keeps its links, while nothing is noted about them
    have hkeep : ∀ {e e₁ : JobEntry}, k.jobEntries f = some e → e' = some e₁ →
        e₁.linkedTo = e.linkedTo → (∀ ev ∈ events, ev.writesLink f b = none) →
        LinkLogged k' f b := fun he he₁ heq hevents =>
      h.frame hlog hevents fun e₂ h₂ hb => by
        obtain rfl := some.inj (h₂.symm.trans he)
        exact ⟨_, hentry.trans he₁, heq ▸ hb⟩
    cases hstep with
    | @create linkTo order _ _ hp ho =>
      intro _ hset
      obtain rfl := hw.absent hp
      refine ⟨_, hentry, ?_⟩
      by_contra hb
      rw [hlog, settle_append] at hset
      have hsilent : ∀ ev ∈ order.map (Event.linked f), ev.writesLink f b = none := by
        intro ev hev
        obtain ⟨z, hz, rfl⟩ := mem_map.mp hev
        exact if_neg fun hz' : f = f ∧ z = b => hb (ho.mem_iff.mp (hz'.2 ▸ hz))
      rw [settle_of_silent hsilent] at hset
      exact absurd hset Bool.false_ne_true
    | forkAdded _ _ he =>
      intro hend hset
      rw [hlog, append_nil] at hend hset
      rw [h.settle_of_none hend he] at hset
      exact absurd hset Bool.false_ne_true
    | @link z e _ _ _ he hz =>
      by_cases hzb : z = b
      · subst hzb
        exact fun _ _ => ⟨_, hentry, Finset.mem_insert_self _ _⟩
      · refine h.frame hlog (fun ev hev => ?_) fun e₂ h₂ hb => ⟨_, hentry, ?_⟩
        · rw [mem_singleton.mp hev]
          exact if_neg fun h => hzb h.2
        · obtain rfl := some.inj (h₂.symm.trans he)
          exact Finset.mem_insert_of_mem hb
    | unlink ha => exact absurd ha (hunlink _ _)
    | watch _ he | unwatch _ he =>
      refine hkeep he rfl rfl fun ev hev => ?_
      rw [mem_singleton.mp hev]
      rfl
    | @recv m e _ _ _ hq _ he =>
      obtain ⟨z, hz⟩ := hfocus.inpRoute m (mem_singleton_self _)
      exact h.recv hfocus.entries hlog he hz fun heq => hdis (heq ▸ mem_of_mem_head? hq)
    | refuse _ he =>
      intro hend hset
      rw [hlog, append_nil] at hend hset
      rw [h.settle_of_none hend he] at hset
      exact absurd hset Bool.false_ne_true
    | drain => exact h.frame hlog nofun fun e he hb => ⟨e, hentry.trans he, hb⟩
    | done | tornDown => exact fun hend => absurd (by simp [hlog]) hend
  · refine h.frame hfocus.log (fun ev hev => ?_) fun e he hb => ⟨e, ?_, hb⟩
    · refine Event.writesLink_of_fork_ne fun hfork => ?_
      rcases hstep.fork_of_mem hfocus.inpRoute hev with h' | h'
      · exact hf (some.inj (h'.symm.trans hfork))
      · exact nomatch h'.symm.trans hfork
    · rw [hfocus.entries, Function.update_of_ne (Ne.symm hf), he]

end Container

open Sys

variable {ι : Type*} [DecidableEq ι] {home : Address → ι} {s s' : Sys ι} {act : Action ι}

/-- What holds about the forks `a` and `b` in a run without `unlink`. -/
structure ExitInv (home : Address → ι) (a b : Address) (s : Sys ι) : Prop where
  wf : Sys.Wf home s
  noUnlink : NoUnlink a b (s.view home a b)
  pending : ExitPending (s.view home a b)
  logged : (s (home a)).LinkLogged a b

omit [DecidableEq ι] in
private theorem ExitInv.init : ExitInv home a b (init : Sys ι) where
  wf := .init
  noUnlink := ⟨nofun, nofun, not_mem_nil, not_mem_nil⟩
  pending _ := .start
  logged _ hset := nomatch hset

/-- A step keeps the invariant of the exits. -/
private theorem ExitInv.step (hab : a ≠ b) (h : ExitInv home a b s) (hok : Steady home s act)
    (hs : s.step home act = some s') : ExitInv home a b s' := by
  have hview : NoUnlink a b (s'.view home a b) ∧ ExitPending (s'.view home a b) := by
    refine (view_step h.wf hab hs).keeps (P := fun v => NoUnlink a b v ∧ ExitPending v)
      ⟨h.noUnlink, h.pending⟩ (fun hacts hv => ?_) (fun hacts hv => ?_)
    · exact ⟨hv.1.acts hacts hok, hv.2.acts hacts hok⟩
    · exact ⟨(hv.1.swap.acts hacts hok).swap, hv.2.acts_peer hv.1.swap hacts hok⟩
  refine ⟨h.wf.step hs, hview.1, hview.2, ?_⟩
  rcases container_of_step hs (home a) with ⟨t, rfl, hk⟩ | ⟨q, o, hk, -⟩
  · refine h.logged.act (h.wf _) hk (fun x y heq => ?_) fun hmem => ?_
    · subst heq
      exact nomatch hok _ rfl
    · exact h.noUnlink.rightMsg (mem_append_left _ (mem_between.mpr ⟨hmem, rfl⟩))
  · rw [hk]
    exact h.logged

/-- **The end of a peer reaches every live fork.** Two forks of different containers, in a run
without `unlink` and without reuse of addresses. Once `b` has ended and all system messages are
processed, a fork `a` that is alive is not linked to `b`, and it has handled an `Exit` from `b`
after each step that made a link: its own calls, its initial links and the `Connect`s it
accepted. -/
theorem exit_handled_of_live (hab : home a ≠ home b)
    (h : Reaches (step home) (Steady home) init s) (hq : Quiescent s)
    (hend : .ended b ∈ (s (home b)).log) (hlive : Live home s a) :
    ¬ LinkedTo home s a b ∧ Answered a b (s (home a)).log := by
  have hne : a ≠ b := fun heq => hab (congrArg home heq)
  have hinv : ExitInv home a b s := h.invariant .init fun hinv hok hs => hinv.step hne hok hs
  obtain ⟨e, he⟩ := ne_none_iff_exists'.mp hlive.2
  have hflight : ∀ x y, flight home s x y = [] := fun x y => by
    rw [flight, (hq _).1, (hq _).2]
    rfl
  have hr : (half home s a b).rel = some (e.rel b) := by rw [half, he, map_some]
  have hstays : (half home s a b).Stays := ⟨hinv.noUnlink.left.ended hr, .inr hlive.1⟩
  have hgone : (half home s b a).linked = false :=
    Half.linked_of_none (hinv.noUnlink.right (decide_eq_true hend))
  have hpending := hinv.pending hstays
  simp only [view, hflight, hgone] at hpending
  have hnot : ¬ LinkedTo home s a b := by
    rw [linkedTo_of_half hr, ← Half.linked_of_some hr, hpending.clear]
    exact Bool.false_ne_true
  refine ⟨hnot, answered_of_settle (Bool.eq_false_iff.mpr fun hset => hnot ?_)⟩
  exact hinv.logged (of_decide_eq_false hstays.1) hset

/-- A `Connect` reaches the queue of a peer that is already removed from the registry. -/
theorem exit_handled_of_live_drained :
    ∃ s : Sys Bool, Reaches (step splitHome) (Steady splitHome) init s ∧ Quiescent s ∧
      Live splitHome s ⟨1#64⟩ ∧ .linked ⟨1#64⟩ ⟨17#64⟩ ∈ (s false).log ∧
      ¬ LinkedTo splitHome s ⟨1#64⟩ ⟨17#64⟩ ∧ Answered ⟨1#64⟩ ⟨17#64⟩ (s false).log := by
  have hreach : Reaches (step splitHome) (Steady splitHome) init _ := reaches_get
    [.task false (.create ⟨1#64⟩ ∅ []), .task true (.create ⟨17#64⟩ ∅ []),
      .task false (.call (.link ⟨1#64⟩ ⟨17#64⟩)), .task true (.call (.exit true)),
      .task true .unregister, .flush false true, .task true .close, .task true (.drain {}),
      .flush true false, .task false (.recv {}), .task true (.epilogue {})] (by decide)
  exact ⟨_, hreach, by decide, by decide, by decide, exit_handled_of_live (a := ⟨1#64⟩)
    (b := ⟨17#64⟩) (by decide) hreach (by decide) (by decide) (by decide)⟩

/-- **A fork that goes down with its actor handles no `Exit`.** Two forks of one actor are linked
to a peer that fails. The first `Exit` terminates the actor, and the second one is lost. -/
theorem exit_lost_with_actor :
    ∃ s : Sys Bool, Reaches (step splitHome) (Steady splitHome) init s ∧ Quiescent s ∧
      .ended ⟨17#64⟩ ∈ (s true).log ∧ ¬ Answered ⟨2#64⟩ ⟨17#64⟩ (s false).log := by
  have hreach : Reaches (step splitHome) (Steady splitHome) init _ := reaches_get
    [.task false (.create ⟨1#64⟩ ∅ []), .task true (.create ⟨17#64⟩ ∅ []),
      .task false (.call (.forkAdded ⟨2#64⟩)), .task false (.call (.link ⟨1#64⟩ ⟨17#64⟩)),
      .flush false false, .task false (.call (.link ⟨2#64⟩ ⟨17#64⟩)), .flush false false,
      .task true (.recv {}), .task true (.recv {}), .task true (.call (.exit false)),
      .task true .unregister, .task true .close,
      .task true (.epilogue { peers := [⟨1#64⟩, ⟨2#64⟩] }), .flush true false,
      .task false (.recv {}), .task false (.dropFork ⟨2#64⟩), .task false .unregister,
      .task false .close, .task false (.drain { peers := [⟨17#64⟩] }), .flush false false,
      .task false (.epilogue {}), .flush true false] (by decide)
  refine ⟨_, hreach, by decide, by decide, fun hans => ?_⟩
  obtain ⟨reason, -, hexit⟩ := hans [.linked ⟨1#64⟩ ⟨17#64⟩] _ _ rfl (.inl rfl)
  revert hexit
  cases reason <;> decide

end Mm1
