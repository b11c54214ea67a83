import Mm1.Runtime.System

/-!
# What the handlers do

The results of the handlers of a container, each case once. Later proofs use these and do not
open the handlers again.

* `CallMoves`: a system call in the main loop;
* `MsgMoves`: a system message in the main loop. A fork with an entry takes it (`Received`), and a
  message for a fork without one is refused;
* `drainMsg_cases`: a system message after the main loop;
* `TaskMoves`: the actions of a container's task.
-/

namespace Mm1

open Option

/-- The job entry of a fork after it handled `m`. -/
def JobEntry.recv (e : JobEntry) : SysMsg → JobEntry
  | .link (.connect sender _) => { e with linkedTo := insert sender e.linkedTo }
  | .link (.disconnect sender _) => { e with linkedTo := e.linkedTo.erase sender }
  | .link (.exit _ _ .terminate) => e
  | .link (.exit sender _ _) => { e with linkedTo := e.linkedTo.erase sender }
  | .watch (.watch sender _ r) => { e with watchedBy := insert (sender, r) e.watchedBy }
  | .watch (.unwatch sender _ r) => { e with watchedBy := e.watchedBy.erase (sender, r) }
  | .watch (.down sender _ _) => { e with
      watchedBy := e.watchedBy.filter fun p => p.1 ≠ sender
      watches := e.watches.filter fun p => p.1 ≠ sender }
  | .kill | .forkDone _ => e

/-- What is noted when a fork with entry `e` handles a message. -/
def JobEntry.recvEvents (e : JobEntry) (trapExit : Bool) (o : Order) : SysMsg → List Event
  | .link (.connect sender receiver) => [.connected receiver sender]
  | .link (.exit sender receiver reason) =>
    .handledExit receiver sender reason ::
      if trapExit && (reason == .terminate || decide (sender ∈ e.linkedTo)) then
        [.exited receiver sender (reason == .normal)]
      else []
  | .watch (.down sender receiver reason) =>
    o.refs.map fun r => .down receiver sender r (reason == .normal)
  | _ => []

namespace Container

variable {k k' : Container} {f : Address} {o : Order} {m : SysMsg} {call : SysCall}

/-! ### The end of a fork and fresh references -/

/-- What `removeFork` leaves. -/
theorem removeFork_spec {b : Bool} (h : k.removeFork f b o = some k') :
    ∃ e, k.jobEntries f = some e ∧ o.Farewell e ∧
      k' = (((k.setEntry f none).untake (o.targets.map Prod.snd)).send
        (JobEntry.farewell f b o)).note [.ended f] := by
  unfold removeFork at h
  split at h
  case h_1 => contradiction
  case h_2 e he =>
    split at h
    case isFalse => contradiction
    case isTrue ho => exact ⟨e, he, ho, (some.inj h).symm⟩

private theorem freshWatchRef_spec {taken : WatchRef → Option TakenWatch} {n : ℕ}
    {candidate r next : WatchRef} (h : freshWatchRef taken n candidate = some (r, next)) :
    taken r = none := by
  induction n generalizing candidate with
  | zero => contradiction
  | succ n ih =>
    rw [freshWatchRef] at h
    split at h
    case isTrue hc =>
      cases h
      exact isNone_iff_eq_none.mp hc
    case isFalse => exact ih h

/-! ### System calls -/

inductive CallMoves (k : Container) : SysCall → Container → Prop
  | exit {isOk : Bool} : CallMoves k (.exit isOk) (k.setPhase (.stopping isOk))
  | trapExit {setInto : Bool} : CallMoves k (.trapExit setInto) { k with trapExit := setInto }
  | spawn : CallMoves k .spawn k
  | forkAdded {f : Address} (he : k.jobEntries f = none) :
      CallMoves k (.forkAdded f) { k.setEntry f (some {}) with contexts := insert f k.contexts }
  | linked {x y : Address} {e : JobEntry} (he : k.jobEntries x = some e) (hy : y ∈ e.linkedTo) :
      CallMoves k (.link x y) (k.note [.linked x y])
  | link {x y : Address} {e : JobEntry} (he : k.jobEntries x = some e) (hy : y ∉ e.linkedTo) :
      CallMoves k (.link x y) (((k.note [.linked x y]).setEntry x
        (some { e with linkedTo := insert y e.linkedTo })).send [.link (.connect x y)])
  | unlinked {x y : Address} {e : JobEntry} (he : k.jobEntries x = some e)
      (hy : y ∉ e.linkedTo) : CallMoves k (.unlink x y) k
  | unlink {x y : Address} {e : JobEntry} (he : k.jobEntries x = some e) (hy : y ∈ e.linkedTo) :
      CallMoves k (.unlink x y) ((k.setEntry x
        (some { e with linkedTo := e.linkedTo.erase y })).send [.link (.disconnect x y)])
  | watch {x y : Address} {e : JobEntry} {r next : WatchRef} (he : k.jobEntries x = some e)
      (hr : k.takenWatchRefs r = none) :
      CallMoves k (.watch x y) ((({ k with
        nextWatchRef := next
        takenWatchRefs := Function.update k.takenWatchRefs r (some ⟨x, y⟩) }.setEntry x
          (some { e with watches := insert (y, r) e.watches })).send
        [.watch (.watch x y r)]).note [.watched x y r])
  | unwatched {x : Address} {r : WatchRef} (hr : k.takenWatchRefs r = none) :
      CallMoves k (.unwatch x r) (k.note [.unwatched r])
  | unwatch {x owner target : Address} {e : JobEntry} {r : WatchRef}
      (hr : k.takenWatchRefs r = some ⟨owner, target⟩) (he : k.jobEntries owner = some e) :
      CallMoves k (.unwatch x r) ((((k.note [.unwatched r]).untake [r]).setEntry owner
        (some { e with watches := e.watches.erase (target, r) })).send
        [.watch (.unwatch owner target r)])

/-- All that the handler of a call can do. -/
theorem callMoves_of_handleCall (h : k.handleCall call = some k') : CallMoves k call k' := by
  cases call with
  | exit =>
    cases h
    exact .exit
  | trapExit =>
    cases h
    exact .trapExit
  | spawn =>
    cases h
    exact .spawn
  | forkAdded f =>
    simp only [handleCall, isNone_iff_eq_none, ite_none_right_eq_some, Option.some.injEq] at h
    obtain ⟨he, rfl⟩ := h
    exact .forkAdded he
  | link x y =>
    simp only [handleCall, handleLink] at h
    split at h
    case h_1 => contradiction
    case h_2 e he =>
      split at h
      case isTrue hy =>
        cases h
        exact .linked he hy
      case isFalse hy =>
        cases h
        exact .link he hy
  | unlink x y =>
    simp only [handleCall, handleUnlink] at h
    split at h
    case h_1 => contradiction
    case h_2 e he =>
      split at h
      case isTrue hy =>
        cases h
        exact .unlink he hy
      case isFalse hy =>
        cases h
        exact .unlinked he hy
  | watch x y =>
    simp only [handleCall, handleWatch] at h
    split at h
    case h_1 => contradiction
    case h_2 e he =>
      split at h
      case h_1 => contradiction
      case h_2 r next hr =>
        cases h
        exact .watch he (freshWatchRef_spec hr)
  | unwatch x r =>
    simp only [handleCall, handleUnwatch] at h
    split at h
    case h_1 hr =>
      cases h
      exact .unwatched hr
    case h_2 owner target hr =>
      split at h
      case h_1 => contradiction
      case h_2 e he =>
        cases h
        exact .unwatch hr he

/-! ### System messages in the main loop -/

/-- The fork `f` with entry `e` has handled `m`. Only a `Down` frees references. -/
structure Received (o : Order) (f : Address) (e : JobEntry) (m : SysMsg) (k k' : Container) :
    Prop where
  entries : k'.jobEntries = Function.update k.jobEntries f (some (e.recv m))
  log : k'.log = k.log ++ e.recvEvents k.trapExit o m
  outbox : k'.outbox = k.outbox
  rxSystem : k'.rxSystem = k.rxSystem
  contexts : k'.contexts = k.contexts
  phase : k'.phase = k.phase ∨ k'.phase = .stopping false
  taken : (∀ x y reason, m ≠ .watch (.down x y reason)) ∧
      k'.takenWatchRefs = k.takenWatchRefs ∨
    ∃ x reason, m = .watch (.down x f reason) ∧ Walks o.refs (e.refsOf x) ∧
      k'.takenWatchRefs = fun r => if r ∈ o.refs then none else k.takenWatchRefs r

inductive MsgMoves (k : Container) (o : Order) : SysMsg → Container → Prop
  | kill : MsgMoves k o .kill (k.setPhase (.stopping false))
  | forkDone {f : Address} {k' : Container} (h : k.removeFork f true o = some k') :
      MsgMoves k o (.forkDone f) k'
  | refuse {m : SysMsg} {z f : Address} (hm : m.route = some (z, f))
      (he : k.jobEntries f = none) : MsgMoves k o m (k.send (m.answer .linkDown).toList)
  | recv {m : SysMsg} {z f : Address} {e : JobEntry} {k' : Container}
      (hm : m.route = some (z, f)) (he : k.jobEntries f = some e)
      (h : Received o f e m k k') : MsgMoves k o m k'

theorem MsgMoves.removeFork (h : MsgMoves k o (.forkDone f) k') :
    k.removeFork f true o = some k' := by
  cases h with
  | forkDone hf => exact hf
  | refuse hm | recv hm => contradiction

@[simp] private theorem send_nil : k.send [] = k := by
  simp [send]

/-- An `Exit` for a fork with an entry. -/
private theorem received_exit {e : JobEntry} {z : Address} (reason : ExitReason)
    (he : k.jobEntries f = some e) :
    Received o f e (.link (.exit z f reason)) k (k.handleExit z f reason) := by
  have hsame : k.jobEntries = Function.update k.jobEntries f (some e) := by
    rw [← he, Function.update_eq_self]
  cases htrap : k.trapExit <;> cases reason <;> by_cases hz : z ∈ e.linkedTo <;> constructor <;>
    simp [handleExit, he, htrap, hz, JobEntry.recv, JobEntry.recvEvents, note, setEntry, setPhase,
      ← hsame]

/-- All that the handler of a system message can do. -/
theorem msgMoves_of_handleMsg (h : k.handleMsg o m = some k') : MsgMoves k o m k' := by
  -- a message that is dropped is refused without an answer
  have hdrop : ∀ {m z f}, m.route = some (z, f) → k.jobEntries f = none →
      m.answer .linkDown = none → MsgMoves k o m k := fun hm he hans => by
    have hrefuse := MsgMoves.refuse (o := o) hm he
    rwa [hans, toList_none, send_nil] at hrefuse
  cases m with
  | kill =>
    cases h
    exact .kill
  | forkDone f => exact .forkDone h
  | link l =>
    cases l with
    | connect x y =>
      cases h
      cases he : k.jobEntries y with
      | none =>
        simp only [handleConnect, he]
        exact .refuse rfl he
      | some e =>
        simp only [handleConnect, he]
        exact .recv rfl he ⟨rfl, rfl, rfl, rfl, rfl, .inl rfl, .inl ⟨by simp, rfl⟩⟩
    | disconnect x y =>
      cases h
      cases he : k.jobEntries y with
      | none =>
        simp only [handleDisconnect, he]
        exact hdrop rfl he rfl
      | some e =>
        simp only [handleDisconnect, he]
        exact .recv rfl he ⟨rfl, (List.append_nil _).symm, rfl, rfl, rfl, .inl rfl,
          .inl ⟨by simp, rfl⟩⟩
    | exit x y reason =>
      cases h
      cases he : k.jobEntries y with
      | none =>
        simp only [handleExit, he]
        exact hdrop rfl he rfl
      | some e => exact .recv rfl he (received_exit reason he)
  | watch w =>
    cases w with
    | watch x y r =>
      cases h
      cases he : k.jobEntries y with
      | none =>
        simp only [handleWatchMsg, he]
        exact .refuse rfl he
      | some e =>
        simp only [handleWatchMsg, he]
        exact .recv rfl he ⟨rfl, (List.append_nil _).symm, rfl, rfl, rfl, .inl rfl,
          .inl ⟨by simp, rfl⟩⟩
    | unwatch x y r =>
      cases h
      cases he : k.jobEntries y with
      | none =>
        simp only [handleUnwatchMsg, he]
        exact hdrop rfl he rfl
      | some e =>
        simp only [handleUnwatchMsg, he]
        exact .recv rfl he ⟨rfl, (List.append_nil _).symm, rfl, rfl, rfl, .inl rfl,
          .inl ⟨by simp, rfl⟩⟩
    | down x y reason =>
      simp only [handleMsg, handleDown] at h
      split at h
      case h_1 he =>
        cases h
        exact hdrop rfl he rfl
      case h_2 e he =>
        simp only [ite_none_right_eq_some, Option.some.injEq] at h
        obtain ⟨hrefs, rfl⟩ := h
        exact .recv rfl he
          ⟨rfl, rfl, rfl, rfl, rfl, .inl rfl, .inr ⟨x, reason, rfl, hrefs, rfl⟩⟩

/-! ### System messages after the main loop -/

/-- A known fork is removed; anything else is answered at most. -/
theorem drainMsg_cases {isOk : Bool} (h : k.drainMsg isOk o m = some k') :
    (∃ f, m = .forkDone f ∧ k.removeFork f isOk o = some k') ∨
      k' = k.send (m.answer (.ofNormal isOk)).toList := by
  cases m with
  | kill =>
    cases h
    exact .inr send_nil.symm
  | forkDone f =>
    simp only [drainMsg] at h
    split at h
    case isTrue =>
      cases h
      exact .inr send_nil.symm
    case isFalse => exact .inl ⟨f, rfl, h⟩
  | link l =>
    cases l with
    | connect =>
      cases h
      exact .inr rfl
    | disconnect | exit =>
      cases h
      exact .inr send_nil.symm
  | watch w =>
    cases w with
    | watch =>
      cases h
      exact .inr rfl
    | unwatch | down =>
      cases h
      exact .inr send_nil.symm

/-! ### The task -/

section Task

variable {ι : Type*} [DecidableEq ι] {home : Address → ι} {c : ι} {a : TaskAction}

inductive TaskMoves (home : Address → ι) (c : ι) (k : Container) : TaskAction → Container → Prop
  | create {f : Address} {linkTo : Finset Address} {order : List Address}
      (hp : k.phase = .absent) (hf : home f = c) (ho : Walks order linkTo) :
      TaskMoves home c k (.create f linkTo order) (create f linkTo order)
  | call {call : SysCall} {k' : Container} (hp : k.phase = .running) (hout : k.outbox = [])
      (hc : callOk home c call = true) (h : CallMoves k call k') :
      TaskMoves home c k (.call call) k'
  | recv {o : Order} {m : SysMsg} {rest : List SysMsg} {k' : Container}
      (hp : k.phase = .running) (hout : k.outbox = []) (hq : k.rxSystem = m :: rest)
      (h : MsgMoves { k with rxSystem := rest } o m k') : TaskMoves home c k (.recv o) k'
  | dropFork {f : Address} (hf : f ∈ k.contexts) :
      TaskMoves home c k (.dropFork f)
        ({ k with contexts := k.contexts.erase f }.enqueue (.forkDone f))
  | dropUnapplied {f : Address} {isOk : Bool} (hp : k.phase = .stopping isOk)
      (he : k.jobEntries f = none) (hf : home f = c) :
      TaskMoves home c k (.dropUnapplied f) (k.enqueue (.forkDone f))
  | unregister {isOk : Bool} (hp : k.phase = .stopping isOk) (hout : k.outbox = [])
      (hctx : k.contexts = ∅) : TaskMoves home c k .unregister (k.setPhase (.unregistered isOk))
  | close {isOk : Bool} (hp : k.phase = .unregistered isOk) :
      TaskMoves home c k .close (k.setPhase (.draining isOk))
  | drain {o : Order} {isOk : Bool} {m : SysMsg} {rest : List SysMsg} {k' : Container}
      (hp : k.phase = .draining isOk) (hout : k.outbox = []) (hq : k.rxSystem = m :: rest)
      (h : { k with rxSystem := rest }.drainMsg isOk o m = some k') :
      TaskMoves home c k (.drain o) k'
  | epilogue {o : Order} {isOk : Bool} {k' : Container} (hp : k.phase = .draining isOk)
      (hout : k.outbox = []) (hq : k.rxSystem = [])
      (h : k.removeFork k.mainFork isOk o = some k') :
      TaskMoves home c k (.epilogue o) (k'.setPhase (.finished isOk))

/-- All that the task of an actor can do. -/
theorem taskMoves_of_act (h : k.act home c a = some k') : TaskMoves home c k a k' := by
  cases a with
  | create f linkTo order =>
    simp only [act, ite_none_right_eq_some, Option.some.injEq] at h
    obtain ⟨⟨hp, hf, ho⟩, rfl⟩ := h
    exact .create hp hf ho
  | call call =>
    simp only [act, ite_none_right_eq_some] at h
    obtain ⟨⟨hp, hout, hc⟩, h⟩ := h
    exact .call hp hout hc (callMoves_of_handleCall h)
  | recv o =>
    simp only [act] at h
    split at h
    case h_1 m rest hp hout hq => exact .recv hp hout hq (msgMoves_of_handleMsg h)
    case h_2 => contradiction
  | dropFork f =>
    simp only [act, ite_none_right_eq_some, Option.some.injEq] at h
    obtain ⟨hf, rfl⟩ := h
    exact .dropFork hf
  | dropUnapplied f =>
    simp only [act] at h
    split at h
    case h_1 hp he =>
      simp only [ite_none_right_eq_some, Option.some.injEq] at h
      obtain ⟨hf, rfl⟩ := h
      exact .dropUnapplied hp he hf
    case h_2 => contradiction
  | unregister =>
    simp only [act] at h
    split at h
    case h_1 hp hout =>
      simp only [ite_none_right_eq_some, Option.some.injEq] at h
      obtain ⟨hctx, rfl⟩ := h
      exact .unregister hp hout hctx
    case h_2 => contradiction
  | close =>
    simp only [act] at h
    split at h
    case h_1 hp =>
      cases h
      exact .close hp
    case h_2 => contradiction
  | drain o =>
    simp only [act] at h
    split at h
    case h_1 hp hout hq => exact .drain hp hout hq h
    case h_2 => contradiction
  | epilogue o =>
    simp only [act] at h
    split at h
    case h_1 hp hout hq =>
      obtain ⟨k₁, h₁, rfl⟩ := map_eq_some_iff.mp h
      exact .epilogue hp hout hq h₁
    case h_2 => contradiction

end Task

end Container

end Mm1
