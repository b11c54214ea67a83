import Mathlib.Data.Fintype.Basic
import Mm1.Lib.Transition
import Mm1.Runtime.Container

/-!
# Containers that exchange system messages

The system is a family of containers, each with one first-in first-out queue. `home f` is the
container whose subnet the address `f` belongs to.

A step is one of

* `task c a`: the task of container `c` does `a` (`Container.act`). A handler runs only when the
  messages of the previous one are all sent;
* `flush c stale`: container `c` sends the next message of its current handler. `sys_send` looks
  the receiver up in the registry and then pushes to the queue: between the removal from the
  registry and the closing of the queue, a sender that looked it up earlier (`stale`) still
  succeeds;
* `kill` and `exit`: requests a context sends to another actor directly.
-/

namespace Mm1

open Function

/-- What the task of a container can do. -/
inductive TaskAction where
  /-- `Container::create` and the start of `run`, with the initial links -/
  | create (mainFork : Address) (linkTo : Finset Address) (order : List Address)
  | call (call : SysCall)
  | recv (o : Order)
  /-- the context of a sub-fork is dropped -/
  | dropFork (f : Address)
  /-- the context of a fork is dropped whose `ForkAdded` was never applied -/
  | dropUnapplied (f : Address)
  | unregister
  | close
  | drain (o : Order)
  | epilogue (o : Order)

namespace Container

variable {ι : Type*} [DecidableEq ι]

/-- The container after `Container::create`, when `run` starts. -/
def create (mainFork : Address) (linkTo : Finset Address) (order : List Address) : Container :=
  { absent with
    mainFork
    jobEntries := update (fun _ => none) mainFork (some { linkedTo := linkTo })
    phase := .running
    outbox := order.map fun peer => .link (.connect mainFork peer)
    log := order.map fun peer => .linked mainFork peer }

/-- A fork address is leased from the container's own subnet. -/
def callOk (home : Address → ι) (c : ι) : SysCall → Bool
  | .forkAdded f => home f = c
  | _ => true

/-- The task of container `c` does one thing; `none` when it cannot, or when it panics. -/
def act (home : Address → ι) (c : ι) (k : Container) : TaskAction → Option Container
  | .create mainFork linkTo order =>
    if k.phase = .absent ∧ home mainFork = c ∧ Walks order linkTo then
      some (create mainFork linkTo order)
    else none
  | .call call =>
    if k.phase = .running ∧ k.outbox = [] ∧ callOk home c call then k.handleCall call else none
  | .recv o =>
    match k.phase, k.outbox, k.rxSystem with
    | .running, [], m :: rest => { k with rxSystem := rest }.handleMsg o m
    | _, _, _ => none
  | .dropFork f =>
    if f ∈ k.contexts then
      some ({ k with contexts := k.contexts.erase f }.enqueue (.forkDone f))
    else none
  | .dropUnapplied f =>
    match k.phase, k.jobEntries f with
    | .stopping _, none => if home f = c then some (k.enqueue (.forkDone f)) else none
    | _, _ => none
  | .unregister =>
    match k.phase, k.outbox with
    | .stopping isOk, [] => if k.contexts = ∅ then some (k.setPhase (.unregistered isOk)) else none
    | _, _ => none
  | .close =>
    match k.phase with
    | .unregistered isOk => some (k.setPhase (.draining isOk))
    | _ => none
  | .drain o =>
    match k.phase, k.outbox, k.rxSystem with
    | .draining isOk, [], m :: rest => { k with rxSystem := rest }.drainMsg isOk o m
    | _, _, _ => none
  | .epilogue o =>
    match k.phase, k.outbox, k.rxSystem with
    | .draining isOk, [], [] =>
      (k.removeFork k.mainFork isOk o).map fun k => k.setPhase (.finished isOk)
    | _, _, _ => none

/-- Whether `sys_send` to this container succeeds. -/
def accepts (k : Container) (stale : Bool) : Bool :=
  match k.phase with
  | .running | .stopping _ => true
  | .unregistered _ => stale
  | .absent | .draining _ | .finished _ => false

end Container

/-- The containers of a node. -/
abbrev Sys (ι : Type*) := ι → Container

inductive Action (ι : Type*) where
  | task (c : ι) (a : TaskAction)
  | flush (c : ι) (stale : Bool)
  | kill (c : ι) (stale : Bool)
  | exit (sender receiver : Address) (stale : Bool)

/-- The system call that is handled in a step. -/
def Action.call? {ι : Type*} : Action ι → Option SysCall
  | .task _ (.call call) => some call
  | _ => none

/-- The container that is created. -/
def Action.created {ι : Type*} : Action ι → Option ι
  | .task c (.create _ _ _) => some c
  | _ => none

/-- The address that a step gives to a new fork. -/
def Action.newFork {ι : Type*} : Action ι → Option Address
  | .task _ (.create f _ _) => some f
  | .task _ (.call (.forkAdded f)) => some f
  | _ => none

/-- The fork whose context is dropped. -/
def Action.dropped {ι : Type*} : Action ι → Option Address
  | .task _ (.dropFork f) | .task _ (.dropUnapplied f) => some f
  | _ => none

/-- The forks that a call links. -/
def Action.linked {ι : Type*} : Action ι → Option (Address × Address)
  | .task _ (.call (.link x y)) => some (x, y)
  | _ => none

/-- The forks of a request to terminate. -/
def Action.exits {ι : Type*} : Action ι → Option (Address × Address)
  | .exit x y _ => some (x, y)
  | _ => none

namespace Sys

variable {ι : Type*} [DecidableEq ι] {home : Address → ι} {s s' : Sys ι} {a : Action ι} {m : SysMsg}

/-- No container exists yet. -/
def init : Sys ι := fun _ => Container.absent

/-- Append `m` to the queue of container `c`. -/
def enqueue (s : Sys ι) (c : ι) (m : SysMsg) : Sys ι := update s c ((s c).enqueue m)

/-- Take the first message out of the outbox of container `c`. -/
def popOutbox (s : Sys ι) (c : ι) : Sys ι := update s c { s c with outbox := (s c).outbox.tail }

/-- Container `c` could not send `m`. -/
def sendFailed (s : Sys ι) (c : ι) (m : SysMsg) : Sys ι :=
  match m.answer .linkDown with
  | none => s
  | some m' => s.enqueue c m'

def step (home : Address → ι) (s : Sys ι) : Action ι → Option (Sys ι)
  | .task c a => ((s c).act home c a).map (update s c)
  | .flush c stale =>
    match (s c).outbox with
    | [] => none
    | m :: _ =>
      match m.route with
      | none => none
      | some (_, receiver) =>
        if (s (home receiver)).accepts stale then some ((s.popOutbox c).enqueue (home receiver) m)
        else some ((s.popOutbox c).sendFailed c m)
  | .kill c stale => if (s c).accepts stale then some (s.enqueue c .kill) else none
  | .exit sender receiver stale =>
    if (s (home receiver)).accepts stale then
      some (s.enqueue (home receiver) (.link (.exit sender receiver .terminate)))
    else none

/-- The steps of the system. -/
inductive Moves (home : Address → ι) (s : Sys ι) : Action ι → Sys ι → Prop
  | task {c : ι} {a : TaskAction} {k' : Container} (h : (s c).act home c a = some k') :
      Moves home s (.task c a) (update s c k')
  | deliver {c : ι} {stale : Bool} {m : SysMsg} {rest : List SysMsg} {x y : Address}
      (hout : (s c).outbox = m :: rest) (hm : m.route = some (x, y))
      (hacc : (s (home y)).accepts stale = true) :
      Moves home s (.flush c stale) ((s.popOutbox c).enqueue (home y) m)
  | lose {c : ι} {stale : Bool} {m : SysMsg} {rest : List SysMsg} {x y : Address}
      (hout : (s c).outbox = m :: rest) (hm : m.route = some (x, y))
      (hacc : (s (home y)).accepts stale = false) :
      Moves home s (.flush c stale) ((s.popOutbox c).sendFailed c m)
  | kill {c : ι} {stale : Bool} (hacc : (s c).accepts stale = true) :
      Moves home s (.kill c stale) (s.enqueue c .kill)
  | exit {x y : Address} {stale : Bool} (hacc : (s (home y)).accepts stale = true) :
      Moves home s (.exit x y stale) (s.enqueue (home y) (.link (.exit x y .terminate)))

/-- All that a step of the system can do. -/
theorem moves_of_step (h : s.step home a = some s') : Moves home s a s' := by
  cases a with
  | task c a =>
    obtain ⟨k', hk, rfl⟩ := Option.map_eq_some_iff.mp h
    exact .task hk
  | flush c stale =>
    simp only [step] at h
    split at h
    case h_1 => contradiction
    case h_2 m rest hout =>
      split at h
      case h_1 => contradiction
      case h_2 x y hm =>
        split at h
        case isTrue hacc =>
          cases h
          exact .deliver hout hm hacc
        case isFalse hacc =>
          cases h
          exact .lose hout hm (Bool.eq_false_iff.mpr hacc)
  | kill c stale =>
    simp only [step, Option.ite_none_right_eq_some, Option.some.injEq] at h
    obtain ⟨hacc, rfl⟩ := h
    exact .kill hacc
  | exit x y stale =>
    simp only [step, Option.ite_none_right_eq_some, Option.some.injEq] at h
    obtain ⟨hacc, rfl⟩ := h
    exact .exit hacc

/-- The container `c` in `s'` is that in `s` but for its outbox and for messages that others put
into its queue. -/
def Frame (s s' : Sys ι) (c : ι) : Prop :=
  ∃ q o, s' c = { s c with rxSystem := (s c).rxSystem ++ q, outbox := o } ∧
    ∀ f, .forkDone f ∉ q

omit [DecidableEq ι] in
private theorem Frame.refl {c : ι} {o : List SysMsg} (h : s' c = { s c with outbox := o }) :
    Frame s s' c :=
  ⟨[], o, by rw [h, List.append_nil], fun _ => List.not_mem_nil⟩

omit [DecidableEq ι] in
private theorem Frame.trans {s s' s'' : Sys ι} {c : ι} (h : Frame s s' c) (h' : Frame s' s'' c) :
    Frame s s'' c := by
  obtain ⟨q, o, h, hq⟩ := h
  obtain ⟨q', o', h', hq'⟩ := h'
  refine ⟨q ++ q', o', by rw [h', h, List.append_assoc], fun f hf => ?_⟩
  exact (List.mem_append.mp hf).elim (hq f) (hq' f)

private theorem frame_enqueue (s : Sys ι) (c d : ι) (hm : ∀ f, m ≠ .forkDone f) :
    Frame s (s.enqueue d m) c := by
  by_cases hc : c = d
  · subst hc
    exact ⟨[m], _, by rw [enqueue, update_self, Container.enqueue],
      fun f hf => hm f (List.mem_singleton.mp hf).symm⟩
  · exact .refl (by rw [enqueue, update_of_ne hc])

private theorem frame_popOutbox (s : Sys ι) (c d : ι) : Frame s (s.popOutbox d) c := by
  by_cases hc : c = d
  · subst hc
    exact .refl (by rw [popOutbox, update_self])
  · exact .refl (by rw [popOutbox, update_of_ne hc])

private theorem ne_forkDone_of_route {x y : Address} (hm : m.route = some (x, y)) (f : Address) :
    m ≠ .forkDone f := by
  rintro rfl
  contradiction

private theorem frame_sendFailed (s : Sys ι) (c d : ι) (m : SysMsg) :
    Frame s (s.sendFailed d m) c := by
  cases hm : m.answer .linkDown with
  | none =>
    simp only [sendFailed, hm]
    exact .refl rfl
  | some m' =>
    simp only [sendFailed, hm]
    obtain ⟨x, y, -, hroute⟩ := SysMsg.route_of_answer hm
    exact frame_enqueue s c d (ne_forkDone_of_route hroute)

/-- **One container in a step**: its task acts, or it is left alone. -/
theorem container_of_step (h : s.step home a = some s') (c : ι) :
    (∃ t, a = .task c t ∧ (s c).act home c t = some (s' c)) ∨ Frame s s' c := by
  cases moves_of_step h with
  | @task d t k' hk =>
    by_cases hc : c = d
    · subst hc
      rw [update_self]
      exact .inl ⟨t, rfl, hk⟩
    · exact .inr (.refl (by rw [update_of_ne hc]))
  | deliver _ hm =>
    exact .inr ((frame_popOutbox _ _ _).trans (frame_enqueue _ _ _ (ne_forkDone_of_route hm)))
  | lose => exact .inr ((frame_popOutbox _ _ _).trans (frame_sendFailed _ _ _ _))
  | kill | exit => exact .inr (frame_enqueue _ _ _ nofun)

/-- The fork `f` is alive: its container is in the main loop and has an entry for it. -/
def Live (home : Address → ι) (s : Sys ι) (f : Address) : Prop :=
  (s (home f)).phase = .running ∧ (s (home f)).jobEntries f ≠ none

instance (home : Address → ι) (s : Sys ι) (f : Address) : Decidable (Live home s f) :=
  inferInstanceAs (Decidable (_ ∧ _))

/-- A fork that is alive is not started. -/
theorem not_born_of_live {s : Sys ι} {f : Address} (hlive : Live home s f)
    (h : s.step home a ≠ none) :
    ¬ (a = .task (home f) (.call (.forkAdded f)) ∨ ∃ l o, a = .task (home f) (.create f l o)) := by
  obtain ⟨hp, he⟩ := hlive
  rintro (rfl | ⟨l, o, rfl⟩)
  · simp [step, Container.act, Container.handleCall, he] at h
  · simp [step, Container.act, hp] at h

/-- All system messages are processed. -/
def Quiescent (s : Sys ι) : Prop := ∀ c, (s c).rxSystem = [] ∧ (s c).outbox = []

instance [Fintype ι] (s : Sys ι) : Decidable s.Quiescent := inferInstanceAs (Decidable (∀ _, _ ∧ _))

/-- Every state of the system that can be reached. -/
abbrev Reachable (home : Address → ι) (s : Sys ι) : Prop :=
  Transition.Reaches (step home) (fun _ _ => True) init s

/-- Two containers, of the addresses below 16 and of the others. -/
def splitHome (a : Address) : Bool := decide (16 ≤ a.intoU64.toNat)

end Sys

end Mm1
