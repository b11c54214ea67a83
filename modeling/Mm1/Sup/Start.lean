import Mm1.Runtime.Exited

/-!
# The start of a supervised child

A supervisor starts a child in a fork of its own, the start fork, and links to the child itself
only when the start is reported. Until then the start fork is linked to the child:

* `NoAck`: the child is spawned with a link to the start fork, which then ends;
* `WithAck`: `do_start` makes another fork, to which the child is linked until it has sent its
  `InitAck`. The link is moved to the start fork then, and both forks end.

`StartPlan.step` is the start fork on top of the system of containers. The supervisor, the child
and all other actors do as they like, except that none of them acts for the two forks.

* `StartPlan.not_exited_of_settledDrop`: as long as the contexts of the two forks are dropped only
  when their messages leave the child without a link to them, or when the child is on its way
  out, the child is never told `Exited` about one of them;
* `StartPlan.exited_of_start`: in the runs that `NoAck` and `WithAck` are made for, it is told.
-/

namespace Mm1

open Settle Sys Transition Option List

/-- How a child reports that it is up. The `start_timeout` of `WithAck` may run out at any time. -/
inductive InitType where
  | noAck
  | withAck
  deriving DecidableEq

/-- The forks and the child of one start. -/
structure StartPlan {ι : Type*} (home : Address → ι) where
  initType : InitType
  /-- the fork that runs `do_start_child` (in `mixed_sup`: `sup_child::run`) -/
  startFork : Address
  /-- the fork that `do_start` makes -/
  ackFork : Address
  child : Address
  ackFork_home : home ackFork = home startFork
  ackFork_ne : ackFork ≠ startFork
  child_home : home child ≠ home startFork

/-- Where the start fork is. -/
inductive StartStage where
  | idle
  | forked
  /-- `do_start` has its fork -/
  | starting
  /-- the child is spawned, and the fork of `do_start` waits for a message -/
  | waiting
  /-- an `InitAck` with this address has come -/
  | acked (address : Address)
  | unlinked (address : Address)
  /-- `do_start` returns and drops its fork -/
  | returning
  /-- the supervisor is told, and then the start fork ends -/
  | reporting
  | done
  /-- the supervisor has left its main loop, which drops the contexts -/
  | cancelled
  deriving DecidableEq

structure StartSys (ι : Type*) where
  sys : Sys ι
  stage : StartStage

inductive StartAction (ι : Type*) where
  /-- anything that the start fork does not do -/
  | env (a : Action ι)
  | fork
  | startFork
  | spawn
  | initAck (address : Address)
  /-- no message within the timeout: `do_kill` -/
  | timeout (stale : Bool)
  /-- any other end of `fork()`, `do_spawn` or `recv()` in `do_start` -/
  | failed
  | unlink
  | link
  | dropAckFork
  | dropStartFork
  | cancel (f : Address)

def StartSys.init {ι : Type*} : StartSys ι := ⟨Sys.init, .idle⟩

/-- The fork in whose name a call is made. -/
def SysCall.caller : SysCall → Option Address
  | .link x _ | .unlink x _ | .watch x _ | .unwatch x _ => some x
  | _ => none

namespace StartPlan

variable {ι : Type*} [DecidableEq ι] {home : Address → ι}

/-- The transient forks of the start. -/
def forks (p : StartPlan home) : List Address :=
  match p.initType with
  | .noAck => [p.startFork]
  | .withAck => [p.startFork, p.ackFork]

/-- The action is not one of the start: it creates another actor, it is not made by one of the
forks, and the child, which does not know them, does not link to them. -/
def Foreign (p : StartPlan home) (a : Action ι) : Prop :=
  a.created ≠ some (home p.child) ∧ (∀ f ∈ a.newFork, f ∉ p.forks) ∧
    (∀ f ∈ a.dropped, f ∉ p.forks) ∧ (∀ call ∈ a.call?, ∀ x ∈ call.caller, x ∉ p.forks) ∧
    (∀ xy ∈ a.linked, xy.1 = p.child → xy.2 ∉ p.forks) ∧ ∀ xy ∈ a.exits, xy.1 ∉ p.forks

instance (p : StartPlan home) (a : Action ι) : Decidable (p.Foreign a) :=
  inferInstanceAs (Decidable (_ ∧ _ ∧ _ ∧ _ ∧ _ ∧ _))

/-- What the start does next: the step of the system, if there is one, and the next stage. -/
def next (p : StartPlan home) (s : StartSys ι) (act : StartAction ι) :
    Option (Option (Action ι) × StartStage) :=
  let sup := home p.startFork
  match s.stage, act with
  | stage, .env a => if p.Foreign a then some (some a, stage) else none
  | .idle, .fork => some (some (.task sup (.call (.forkAdded p.startFork))), .forked)
  | .forked, .startFork =>
    match p.initType with
    | .noAck => none
    | .withAck => some (some (.task sup (.call (.forkAdded p.ackFork))), .starting)
  | .forked, .spawn =>
    match p.initType with
    | .noAck =>
      some (some (.task (home p.child) (.create p.child {p.startFork} [p.startFork])), .reporting)
    | .withAck => none
  | .starting, .spawn =>
    some (some (.task (home p.child) (.create p.child {p.ackFork} [p.ackFork])), .waiting)
  | .forked, .failed => some (none, .reporting)
  | .starting, .failed | .waiting, .failed => some (none, .returning)
  | .waiting, .initAck address => some (none, .acked address)
  | .waiting, .timeout stale => some (some (.kill (home p.child) stale), .returning)
  | .acked address, .unlink =>
    some (some (.task sup (.call (.unlink p.ackFork address))), .unlinked address)
  | .unlinked address, .link =>
    some (some (.task sup (.call (.link p.startFork address))), .returning)
  | .returning, .dropAckFork => some (some (.task sup (.dropFork p.ackFork)), .reporting)
  | .reporting, .dropStartFork => some (some (.task sup (.dropFork p.startFork)), .done)
  | _, .cancel f =>
    if f ∈ p.forks ∧ (s.sys sup).phase ≠ .running then
      some (some (.task sup (.dropFork f)), .cancelled)
    else none
  | _, _ => none

def step (p : StartPlan home) (s : StartSys ι) (act : StartAction ι) : Option (StartSys ι) :=
  match p.next s act with
  | none => none
  | some (none, stage) => some { s with stage }
  | some (some a, stage) => (s.sys.step home a).map fun sys => { sys, stage }

/-- The fork whose context is dropped. -/
def dropped (p : StartPlan home) : StartAction ι → Option Address
  | .dropAckFork => some p.ackFork
  | .dropStartFork => some p.startFork
  | .cancel f => some f
  | _ => none

/-- **The condition.** When the context of one of the forks is dropped, the child has left its
main loop, or a `Kill` is queued for it, or the messages of this fork leave it without a link. -/
def SettledDrop (p : StartPlan home) (s : StartSys ι) (act : StartAction ι) : Prop :=
  ∀ f ∈ p.dropped act, (s.sys (home p.child)).phase.result ≠ none ∨
    .kill ∈ (s.sys (home p.child)).rxSystem ∨
    settle writesLink (s.sys.half home p.child f).linked (s.sys.flight home f p.child) = false

instance (p : StartPlan home) (s : StartSys ι) (act : StartAction ι) :
    Decidable (p.SettledDrop s act) :=
  inferInstanceAs (Decidable (∀ f ∈ p.dropped act, _ ∨ _ ∨ _))

/-! ### The life of a start fork -/

/-- How far the life of one of the forks has come. -/
inductive Epoch where
  | unborn
  | opened
  | closed
  /-- open, or closed, or never to be added -/
  | ending

def Epoch.Holds (home : Address → ι) (f z : Address) (s : Sys ι) : Epoch → Prop
  | .unborn => Unborn home f z s
  | .opened => Open home f z s
  | .closed => f ∉ (s (home f)).contexts ∧ Harmless home f z s
  | .ending => Open home f z s ∨ f ∉ (s (home f)).contexts ∧ Harmless home f z s

/-- The action does not concern the fork `f` of the start of `z`. -/
structure Spares (home : Address → ι) (act : Action ι) (f z : Address) : Prop where
  created : act.created ≠ some (home z)
  newFork : act.newFork ≠ some f
  dropped : act.dropped ≠ some f
  linked : act.linked ≠ some (f, z)
  linked' : act.linked ≠ some (z, f)
  exits : act.exits ≠ some (f, z)

variable {s s' : Sys ι} {act : Action ι} {f z : Address} {e : Epoch} {b : Bool}

private theorem closed_step (h : f ∉ (s (home f)).contexts ∧ Harmless home f z s)
    (hw : Wf home s) (hne : z ≠ f) (hs : s.step home act = some s')
    (hcreate : act.created ≠ some (home z)) (hnew : act.newFork ≠ some f)
    (hlink : act.linked ≠ some (f, z)) (hlink' : act.linked ≠ some (z, f))
    (hexit : act.exits ≠ some (f, z)) :
    f ∉ (s' (home f)).contexts ∧ Harmless home f z s' :=
  ⟨context_of_step hw hs hnew h.1, h.2.step hw hne hs hcreate hnew hlink hlink' hexit⟩

/-- What does not concern a fork leaves it in its epoch. -/
private theorem Epoch.Holds.step (h : e.Holds home f z s) (hw : Wf home s) (hne : z ≠ f)
    (hs : s.step home act = some s') (hact : Spares home act f z) : e.Holds home f z s' := by
  have hopen : Open home f z s → Open home f z s' := fun h =>
    h.step hw hne hs hact.dropped hact.exits
  have hclosed : f ∉ (s (home f)).contexts ∧ Harmless home f z s →
      f ∉ (s' (home f)).contexts ∧ Harmless home f z s' := fun h =>
    closed_step h hw hne hs hact.created hact.newFork hact.linked hact.linked' hact.exits
  cases e with
  | unborn =>
    exact Unborn.step h hw hne hs hact.created hact.newFork hact.dropped hact.exits
  | opened => exact hopen h
  | closed => exact hclosed h
  | ending => exact Or.imp hopen hclosed h

omit [DecidableEq ι] in
/-- Every epoch may be the last one. -/
private theorem Epoch.Holds.ending (h : e.Holds home f z s) (hw : Wf home s) :
    Epoch.ending.Holds home f z s := by
  cases e with
  | unborn => exact .inr ⟨h.context, Unborn.harmless h hw⟩
  | opened => exact .inl h
  | closed => exact .inr h
  | ending => exact h

/-- The context is dropped. -/
private theorem closed_of_drop (h : Epoch.ending.Holds home f z s) (hw : Wf home s) (hne : z ≠ f)
    (hs : s.step home (.task (home f) (.dropFork f)) = some s')
    (hdrop : (s (home z)).phase.result ≠ none ∨ .kill ∈ (s (home z)).rxSystem ∨
      settle writesLink (s.half home z f).linked (s.flight home f z) = false) :
    Epoch.closed.Holds home f z s' := by
  have hharmless : Harmless home f z s := h.elim (fun h => h.harmless hdrop) And.right
  refine ⟨?_, hharmless.step hw hne hs nofun nofun nofun nofun nofun⟩
  obtain ⟨k', hk, rfl⟩ := map_eq_some_iff.mp hs
  rw [Function.update_self, (Container.flow_of_act (hw _) hk).contexts f]
  rintro (⟨-, hne⟩ | ha)
  · exact hne rfl
  · contradiction

omit [DecidableEq ι] in
/-- Nothing is reported about the fork in any epoch. -/
private theorem Epoch.Holds.not_reports (h : e.Holds home f z s) :
    ¬ (s (home z)).Reports z f b := by
  cases e with
  | unborn => exact Unborn.not_reports h
  | opened => exact Open.not_reports h
  | closed => exact Harmless.not_reports h.2
  | ending => exact h.elim Open.not_reports fun h => h.2.not_reports

/-! ### The start -/

/-- The steps of the start. -/
inductive Moves (p : StartPlan home) (t : StartSys ι) : StartAction ι → StartSys ι → Prop
  | env {act : Action ι} {s' : Sys ι} (ha : p.Foreign act)
      (hs : t.sys.step home act = some s') : Moves p t (.env act) ⟨s', t.stage⟩
  | fork {s' : Sys ι} (hst : t.stage = .idle)
      (hs : t.sys.step home (.task (home p.startFork) (.call (.forkAdded p.startFork))) = some s') :
      Moves p t .fork ⟨s', .forked⟩
  | startFork {s' : Sys ι} (hst : t.stage = .forked)
      (hs : t.sys.step home (.task (home p.startFork) (.call (.forkAdded p.ackFork))) = some s') :
      Moves p t .startFork ⟨s', .starting⟩
  | spawn {f : Address} {s' : Sys ι} {stage : StartStage}
      (hst : t.stage = .forked ∧ p.initType = .noAck ∧ stage = .reporting ∨
        t.stage = .starting ∧ stage = .waiting)
      (hs : t.sys.step home (.task (home p.child) (.create p.child {f} [f])) = some s') :
      Moves p t .spawn ⟨s', stage⟩
  | failed {stage : StartStage}
      (hst : t.stage = .forked ∧ stage = .reporting ∨
        (t.stage = .starting ∨ t.stage = .waiting) ∧ stage = .returning) :
      Moves p t .failed ⟨t.sys, stage⟩
  | initAck {address : Address} (hst : t.stage = .waiting) :
      Moves p t (.initAck address) ⟨t.sys, .acked address⟩
  | timeout {stale : Bool} {s' : Sys ι} (hst : t.stage = .waiting)
      (hs : t.sys.step home (.kill (home p.child) stale) = some s') :
      Moves p t (.timeout stale) ⟨s', .returning⟩
  | unlink {address : Address} {s' : Sys ι} (hst : t.stage = .acked address)
      (hs : t.sys.step home
        (.task (home p.startFork) (.call (.unlink p.ackFork address))) = some s') :
      Moves p t .unlink ⟨s', .unlinked address⟩
  | link {address : Address} {s' : Sys ι} (hst : t.stage = .unlinked address)
      (hs : t.sys.step home
        (.task (home p.startFork) (.call (.link p.startFork address))) = some s') :
      Moves p t .link ⟨s', .returning⟩
  | dropAckFork {s' : Sys ι} (hst : t.stage = .returning)
      (hs : t.sys.step home (.task (home p.startFork) (.dropFork p.ackFork)) = some s') :
      Moves p t .dropAckFork ⟨s', .reporting⟩
  | dropStartFork {s' : Sys ι} (hst : t.stage = .reporting)
      (hs : t.sys.step home (.task (home p.startFork) (.dropFork p.startFork)) = some s') :
      Moves p t .dropStartFork ⟨s', .done⟩
  | cancel {f : Address} {s' : Sys ι} (hf : f ∈ p.forks)
      (hs : t.sys.step home (.task (home p.startFork) (.dropFork f)) = some s') :
      Moves p t (.cancel f) ⟨s', .cancelled⟩

variable {p : StartPlan home} {t t' : StartSys ι} {a : StartAction ι}

/-- All that a step of the start can do. -/
private theorem moves_of_step (h : p.step t a = some t') : Moves p t a t' := by
  -- the step of the system that `next` asks for
  have hsys : ∀ {act stage}, p.next t a = some (some act, stage) →
      ∃ s', t.sys.step home act = some s' ∧ t' = ⟨s', stage⟩ := by
    intro act stage hnext
    simp only [step, hnext, map_eq_some_iff] at h
    obtain ⟨s', hs, rfl⟩ := h
    exact ⟨s', hs, rfl⟩
  have hsilent : ∀ {stage}, p.next t a = some (none, stage) → t' = ⟨t.sys, stage⟩ := by
    intro stage hnext
    simp only [step, hnext, Option.some.injEq] at h
    exact h.symm
  obtain ⟨sys, stage⟩ := t
  cases a with
  | env act =>
    by_cases ha : p.Foreign act
    · obtain ⟨s', hs, rfl⟩ := hsys (if_pos ha)
      exact .env ha hs
    · have hnone : p.next ⟨sys, stage⟩ (.env act) = none := if_neg ha
      simp [step, hnone] at h
  | fork =>
    cases stage with
    | idle =>
      obtain ⟨s', hs, rfl⟩ := hsys rfl
      exact .fork rfl hs
    | _ => contradiction
  | startFork =>
    cases stage with
    | forked =>
      cases hinit : p.initType with
      | noAck => simp [step, next, hinit] at h
      | withAck =>
        simp only [step, next, hinit, map_eq_some_iff] at h
        obtain ⟨s', hs, rfl⟩ := h
        exact .startFork rfl hs
    | _ => contradiction
  | spawn =>
    cases stage with
    | forked =>
      cases hinit : p.initType with
      | withAck => simp [step, next, hinit] at h
      | noAck =>
        simp only [step, next, hinit, map_eq_some_iff] at h
        obtain ⟨s', hs, rfl⟩ := h
        exact .spawn (.inl ⟨rfl, hinit, rfl⟩) hs
    | starting =>
      obtain ⟨s', hs, rfl⟩ := hsys rfl
      exact .spawn (.inr ⟨rfl, rfl⟩) hs
    | _ => contradiction
  | failed =>
    cases stage with
    | forked =>
      obtain rfl := hsilent rfl
      exact .failed (.inl ⟨rfl, rfl⟩)
    | starting =>
      obtain rfl := hsilent rfl
      exact .failed (.inr ⟨.inl rfl, rfl⟩)
    | waiting =>
      obtain rfl := hsilent rfl
      exact .failed (.inr ⟨.inr rfl, rfl⟩)
    | _ => contradiction
  | initAck address =>
    cases stage with
    | waiting =>
      obtain rfl := hsilent rfl
      exact .initAck rfl
    | _ => contradiction
  | timeout stale =>
    cases stage with
    | waiting =>
      obtain ⟨s', hs, rfl⟩ := hsys rfl
      exact .timeout rfl hs
    | _ => contradiction
  | unlink =>
    cases stage with
    | acked address =>
      obtain ⟨s', hs, rfl⟩ := hsys rfl
      exact .unlink rfl hs
    | _ => contradiction
  | link =>
    cases stage with
    | unlinked address =>
      obtain ⟨s', hs, rfl⟩ := hsys rfl
      exact .link rfl hs
    | _ => contradiction
  | dropAckFork =>
    cases stage with
    | returning =>
      obtain ⟨s', hs, rfl⟩ := hsys rfl
      exact .dropAckFork rfl hs
    | _ => contradiction
  | dropStartFork =>
    cases stage with
    | reporting =>
      obtain ⟨s', hs, rfl⟩ := hsys rfl
      exact .dropStartFork rfl hs
    | _ => contradiction
  | cancel f =>
    by_cases hf : f ∈ p.forks ∧ (sys (home p.startFork)).phase ≠ .running
    · have hnext : p.next ⟨sys, stage⟩ (.cancel f) =
          some (some (.task (home p.startFork) (.dropFork f)), .cancelled) := by
        cases stage <;> exact if_pos hf
      obtain ⟨s', hs, rfl⟩ := hsys hnext
      exact .cancel hf.1 hs
    · have hnext : p.next ⟨sys, stage⟩ (.cancel f) = none := by
        cases stage <;> exact if_neg hf
      simp [step, hnext] at h

/-- The step of the system inside a step of the start. -/
private theorem sys_of_step (h : p.step t a = some t') :
    t'.sys = t.sys ∨ ∃ act, t.sys.step home act = some t'.sys := by
  cases moves_of_step h with
  | failed | initAck => exact .inl rfl
  | env _ hs | fork _ hs | startFork _ hs | spawn _ hs | timeout _ hs | unlink _ hs | link _ hs
  | dropAckFork _ hs | dropStartFork _ hs | cancel _ hs => exact .inr ⟨_, hs⟩

/-- The epoch of the start fork. -/
def startEpoch : StartStage → Epoch
  | .idle => .unborn
  | .done => .closed
  | .cancelled => .ending
  | _ => .opened

/-- The epoch of the fork of `do_start`. -/
def ackEpoch : StartStage → Epoch
  | .idle | .forked => .unborn
  | .reporting | .done => .closed
  | .cancelled => .ending
  | _ => .opened

structure Inv (p : StartPlan home) (s : StartSys ι) : Prop where
  wf : Wf home s.sys
  start : (startEpoch s.stage).Holds home p.startFork p.child s.sys
  ack : p.initType = .withAck → (ackEpoch s.stage).Holds home p.ackFork p.child s.sys

omit [DecidableEq ι] in
private theorem child_ne_startFork (p : StartPlan home) : p.child ≠ p.startFork :=
  fun h => p.child_home (congrArg home h)

omit [DecidableEq ι] in
private theorem child_ne_ackFork (p : StartPlan home) : p.child ≠ p.ackFork :=
  fun h => p.child_home ((congrArg home h).trans p.ackFork_home)

omit [DecidableEq ι] in
private theorem startFork_mem (p : StartPlan home) : p.startFork ∈ p.forks := by
  rw [forks]
  split <;> exact mem_cons_self

omit [DecidableEq ι] in
private theorem ackFork_mem (h : p.initType = .withAck) : p.ackFork ∈ p.forks := by
  rw [forks, h]
  exact mem_cons_of_mem _ mem_cons_self

omit [DecidableEq ι] in
/-- Others spare the forks of the start. -/
private theorem spares_of_foreign (ha : p.Foreign act) (hf : f ∈ p.forks) :
    Spares home act f p.child := by
  obtain ⟨hcreate, hnew, hdrop, hcall, hlink, hexit⟩ := ha
  refine ⟨hcreate, fun h => hnew f h hf, fun h => hdrop f h hf, fun h => ?_, fun h => ?_,
    fun h => hexit _ h hf⟩
  · cases act with
    | task c t =>
      cases t with
      | call call =>
        cases call with
        | link x y =>
          cases h
          exact hcall _ rfl f rfl hf
        | _ => contradiction
      | _ => contradiction
    | _ => contradiction
  · exact hlink _ h rfl hf

/-- Nothing else is the case, in one of the stages in between. -/
private theorem Inv.opened {stage : StartStage} {s' : Sys ι} (h : p.Inv t)
    (hs : t.sys.step home act = some s') (hstart : startEpoch t.stage = .opened)
    (hack : ackEpoch t.stage = .opened) (hstart' : startEpoch stage = .opened)
    (hack' : ackEpoch stage = .opened) (hdrop : act.dropped = none) (hexit : act.exits = none) :
    p.Inv ⟨s', stage⟩ := by
  have hstep : ∀ f, p.child ≠ f → Open home f p.child t.sys → Open home f p.child s' :=
    fun f hne ho => ho.step h.wf hne hs (by rw [hdrop]; nofun) (by rw [hexit]; nofun)
  refine ⟨h.wf.step hs, ?_, fun hwith => ?_⟩
  · have ho := h.start
    rw [hstart] at ho
    rw [hstart']
    exact hstep _ p.child_ne_startFork ho
  · have ho := h.ack hwith
    rw [hack] at ho
    rw [hack']
    exact hstep _ p.child_ne_ackFork ho

/-- The supervisor drops the context of one of the forks. -/
private theorem Inv.cancel {s' : Sys ι} (h : p.Inv t) (hf : f ∈ p.forks)
    (hok : p.SettledDrop t (.cancel f))
    (hs : t.sys.step home (.task (home p.startFork) (.dropFork f)) = some s') :
    p.Inv ⟨s', .cancelled⟩ := by
  have hending : ∀ g, home g = home p.startFork → p.child ≠ g →
      Epoch.ending.Holds home g p.child t.sys → Epoch.ending.Holds home g p.child s' := by
    intro g hg hne he
    by_cases hgf : g = f
    · subst hgf
      rw [← hg] at hs
      exact (closed_of_drop he h.wf hne hs (hok g rfl)).ending (h.wf.step hs)
    · exact he.step h.wf hne hs ⟨nofun, nofun, fun heq => hgf (some.inj heq).symm,
        nofun, nofun, nofun⟩
  exact ⟨h.wf.step hs, hending _ rfl p.child_ne_startFork (h.start.ending h.wf),
    fun hwith => hending _ p.ackFork_home p.child_ne_ackFork ((h.ack hwith).ending h.wf)⟩

/-- **One step** that meets the condition. -/
theorem Inv.step (h : p.Inv t) (hok : p.SettledDrop t a) (hstep : p.step t a = some t') :
    p.Inv t' := by
  have hne := p.child_ne_startFork
  have hne' := p.child_ne_ackFork
  have hw := h.wf
  have hstart := h.start
  have hack := h.ack
  cases moves_of_step hstep with
  | env ha hs =>
    refine ⟨hw.step hs, hstart.step hw hne hs (spares_of_foreign ha p.startFork_mem), ?_⟩
    exact fun hwith => (hack hwith).step hw hne' hs (spares_of_foreign ha (ackFork_mem hwith))
  | fork hst hs =>
    rw [hst] at hstart hack
    refine ⟨hw.step hs, Unborn.born hstart hs, fun hwith => ?_⟩
    exact (hack hwith).step hw hne' hs ⟨nofun, fun heq => p.ackFork_ne (some.inj heq).symm,
      nofun, nofun, nofun, nofun⟩
  | startFork hst hs =>
    rw [hst] at hstart hack
    refine ⟨hw.step hs, Open.step hstart hw hne hs nofun nofun, fun hwith => ?_⟩
    rw [← p.ackFork_home] at hs
    exact Unborn.born (hack hwith) hs
  | spawn hst hs =>
    rcases hst with ⟨hst, hno, rfl⟩ | ⟨hst, rfl⟩
    · rw [hst] at hstart
      refine ⟨hw.step hs, Open.step hstart hw hne hs nofun nofun, fun hwith => ?_⟩
      exact nomatch hno.symm.trans hwith
    · exact h.opened hs (by rw [hst]; rfl) (by rw [hst]; rfl) rfl rfl rfl rfl
  | failed hst =>
    rcases hst with ⟨hst, rfl⟩ | ⟨hst | hst, rfl⟩
    · -- `do_start` fails before it has a fork
      rw [hst] at hstart hack
      refine ⟨hw, hstart, fun hwith => ?_⟩
      have hunborn : Unborn home p.ackFork p.child t.sys := hack hwith
      exact ⟨hunborn.context, hunborn.harmless hw⟩
    · rw [hst] at hstart hack
      exact ⟨hw, hstart, hack⟩
    · rw [hst] at hstart hack
      exact ⟨hw, hstart, hack⟩
  | initAck hst =>
    rw [hst] at hstart hack
    exact ⟨hw, hstart, hack⟩
  | timeout hst hs | unlink hst hs | link hst hs =>
    exact h.opened hs (by rw [hst]; rfl) (by rw [hst]; rfl) rfl rfl rfl rfl
  | dropAckFork hst hs =>
    rw [hst] at hstart hack
    refine ⟨hw.step hs, Open.step hstart hw hne hs ?_ nofun, fun hwith => ?_⟩
    · exact fun heq => p.ackFork_ne (some.inj heq)
    · rw [← p.ackFork_home] at hs
      exact closed_of_drop (.inl (hack hwith)) hw hne' hs (hok _ rfl)
  | dropStartFork hst hs =>
    rw [hst] at hstart hack
    refine ⟨hw.step hs, closed_of_drop (.inl hstart) hw hne hs (hok _ rfl), fun hwith => ?_⟩
    exact closed_step (hack hwith) hw hne' hs nofun nofun nofun nofun nofun
  | cancel hf hs => exact h.cancel hf hok hs

omit [DecidableEq ι] in
private theorem inv_init : p.Inv .init := by
  have hunborn : ∀ f, Unborn home f p.child (Sys.init : Sys ι) := fun f =>
    ⟨rfl, rfl, Finset.notMem_empty f, not_mem_nil, rfl, fun m hm => absurd hm not_mem_nil⟩
  exact ⟨.init, hunborn _, fun _ => hunborn _⟩

omit [DecidableEq ι] in
/-- The child is not told about the forks of its start in this state. -/
private theorem Inv.not_reports (h : p.Inv t) (hf : f ∈ p.forks) :
    ¬ (t.sys (home p.child)).Reports p.child f b := by
  have hmem : f = p.startFork ∨ f = p.ackFork ∧ p.initType = .withAck := by
    cases hinit : p.initType with
    | noAck =>
      rw [forks, hinit] at hf
      exact .inl (mem_singleton.mp hf)
    | withAck =>
      rw [forks, hinit] at hf
      exact (mem_cons.mp hf).imp_right fun hf => ⟨mem_singleton.mp hf, rfl⟩
  rcases hmem with rfl | ⟨rfl, hwith⟩
  · exact h.start.not_reports
  · exact (h.ack hwith).not_reports

/-- A supervisor with the addresses below 16, which starts the child 16. -/
def sample (initType : InitType) : StartPlan splitHome where
  initType
  startFork := ⟨2#64⟩
  ackFork := ⟨3#64⟩
  child := ⟨16#64⟩
  ackFork_home := by decide
  ackFork_ne := by decide
  child_home := by decide

/-- **The child is not told about the forks of its start.** In every run in which the contexts of
these forks are dropped only when the child has left its main loop, is going to be killed, or is
left without a link to the fork by the messages of the fork, whatever the supervisor, the child
and the others do. -/
theorem not_exited_of_settledDrop (p : StartPlan home)
    (h : Reaches p.step p.SettledDrop .init t) (hf : f ∈ p.forks) (b : Bool) :
    .exited p.child f b ∉ (t.sys (home p.child)).log := by
  have hinv : p.Inv t ∧ .exited p.child f b ∉ (t.sys (home p.child)).log := by
    refine h.invariant
      (P := fun t => p.Inv t ∧ .exited p.child f b ∉ (t.sys (home p.child)).log)
      ⟨inv_init, not_mem_nil⟩ fun ⟨hinv, hlog⟩ hok hs => ⟨hinv.step hok hs, fun hev => ?_⟩
    rcases sys_of_step hs with heq | ⟨act, hsys⟩
    · exact hlog (heq ▸ hev)
    · exact (exited_of_step hinv.wf hsys hev).elim hlog (hinv.not_reports hf)
  exact hinv.2

/-- A start with `WithAck`, in which every message is handled in time. -/
def acked : List (StartAction Bool) :=
  [.env (.task false (.create ⟨1#64⟩ ∅ [])), .fork, .startFork, .spawn, .env (.flush true false),
    .env (.task false (.recv {})), .env (.task true (.call (.trapExit true))), .initAck ⟨16#64⟩,
    .unlink, .env (.flush false false), .link, .env (.flush false false),
    .env (.task true (.recv {})), .env (.task true (.recv {})), .dropAckFork]

/-- A child with `WithAck` that ends before the start fork does. -/
theorem not_exited_of_settledDrop_quit :
    ∃ s, Reaches (sample .withAck).step (sample .withAck).SettledDrop .init s ∧
      s.stage = .done ∧ (s.sys true).trapExit = true ∧ (s.sys true).rxSystem ≠ [] ∧
      .exited ⟨16#64⟩ ⟨2#64⟩ true ∉ (s.sys true).log := by
  have hreach : Reaches (sample .withAck).step (sample .withAck).SettledDrop .init _ := reaches_get
    (acked ++ [.env (.task true (.call (.exit true))), .dropStartFork,
      .env (.task false (.recv {})), .env (.task false (.recv { peers := [⟨16#64⟩] })),
      .env (.flush false false)]) (by decide)
  exact ⟨_, hreach, by decide, by decide, by decide,
    not_exited_of_settledDrop (sample .withAck) hreach (by decide) true⟩

/-- **The child is told about the forks of its start.** In the first two runs every message is
handled in time: with `NoAck` nothing undoes the link to the start fork, and with `WithAck` the
link is moved to it. In the third one the `Connect` of the child is handled only after `unlink`,
which then finds no link. Each time the child, which traps exits, is told that the fork has
ended. -/
theorem exited_of_start :
    (∃ s, Reaches (sample .noAck).step (fun _ _ => True) .init s ∧
      (s.sys true).phase = .running ∧ .exited ⟨16#64⟩ ⟨2#64⟩ true ∈ (s.sys true).log) ∧
    (∃ s, Reaches (sample .withAck).step (fun _ _ => True) .init s ∧
      (s.sys true).phase = .running ∧ .exited ⟨16#64⟩ ⟨2#64⟩ true ∈ (s.sys true).log) ∧
    ∃ s, Reaches (sample .withAck).step (fun _ _ => True) .init s ∧
      (s.sys true).phase = .running ∧ .exited ⟨16#64⟩ ⟨3#64⟩ true ∈ (s.sys true).log := by
  refine ⟨?_, ?_, ?_⟩
  · refine ⟨_, reaches_get
      [.env (.task false (.create ⟨1#64⟩ ∅ [])), .fork, .spawn, .env (.flush true false),
        .env (.task true (.call (.trapExit true))), .env (.task false (.recv {})),
        .dropStartFork, .env (.task false (.recv { peers := [⟨16#64⟩] })),
        .env (.flush false false), .env (.task true (.recv {}))] (by decide), ?_⟩
    decide
  · refine ⟨_, reaches_get (acked ++ [.dropStartFork, .env (.task false (.recv {})),
      .env (.task false (.recv { peers := [⟨16#64⟩] })), .env (.flush false false),
      .env (.task true (.recv {}))]) (by decide), ?_⟩
    decide
  · refine ⟨_, reaches_get [.env (.task false (.create ⟨1#64⟩ ∅ [])), .fork, .startFork, .spawn,
        .env (.flush true false), .env (.task true (.call (.trapExit true))), .initAck ⟨16#64⟩,
        .unlink, .link, .env (.flush false false), .dropAckFork, .env (.task false (.recv {})),
        .env (.task false (.recv { peers := [⟨16#64⟩] })), .env (.flush false false),
        .env (.task true (.recv {})), .env (.task true (.recv {}))] (by decide), ?_⟩
    decide

end StartPlan

end Mm1
