import Mathlib.Algebra.Group.Nat.Defs
import Mathlib.Data.Finset.Image
import Mm1.Runtime.SysMsg

/-!
# The container

A container runs one actor: it keeps a `JobEntry` per fork, handles the system calls of the
contexts and the system messages of other containers, and after the main loop takes itself
apart.

A handler of the source sends its messages one by one with `sys_send`. Here it only appends them
to `outbox`; the system takes them out one at a time (see `Mm1.Runtime.System`), so that other
containers can act between two sends of one handler.

* `handleCall` and `handleMsg`: the arms of the main loop;
* `drainMsg`: the arms of the loop that empties the queue after it is closed;
* `removeFork`: the end of a fork, the same in the main loop, in that loop and in the epilogue.

The source walks `linked_to` in the order of a hash set and the two watch sets in ascending
order. `Order` lists the elements in the order they are walked; nothing here depends on it.
Panics of the source (`expect`, `assert!`) are `none`.
-/

namespace Mm1

structure JobEntry where
  linkedTo : Finset Address := ∅
  watches : Finset (Address × WatchRef) := ∅
  watchedBy : Finset (Address × WatchRef) := ∅
  deriving DecidableEq

structure TakenWatch where
  owner : Address
  target : Address
  deriving DecidableEq

/-- Where the task of a container is. The flag is `exit_reason.is_ok()`. -/
inductive Phase where
  /-- not created -/
  | absent
  /-- in the main loop -/
  | running
  /-- the main loop was left; the actor's futures are being dropped -/
  | stopping (isOk : Bool)
  /-- removed from the registry -/
  | unregistered (isOk : Bool)
  /-- the queue is closed and being emptied -/
  | draining (isOk : Bool)
  /-- the final messages have been handed out -/
  | finished (isOk : Bool)
  deriving DecidableEq, Repr

/-- What a container does that its forks and their peers can tell, in order. `exited` and `down`
are the messages put into the priority lane. -/
inductive Event where
  | linked (sender receiver : Address)
  | connected (receiver sender : Address)
  | handledExit (receiver sender : Address) (reason : ExitReason)
  | exited (receiver peer : Address) (normalExit : Bool)
  | watched (owner target : Address) (watchRef : WatchRef)
  | unwatched (watchRef : WatchRef)
  | down (receiver peer : Address) (watchRef : WatchRef) (normalExit : Bool)
  | ended (fork : Address)
  deriving DecidableEq, Repr

/-- The order in which a handler walks the sets of a job entry. -/
structure Order where
  targets : List (Address × WatchRef) := []
  peers : List Address := []
  watchers : List Address := []
  refs : List WatchRef := []

/-- `l` lists each element of `s` once. -/
def Walks {α : Type*} [DecidableEq α] (l : List α) (s : Finset α) : Prop := l.Nodup ∧ l.toFinset = s

instance {α : Type*} [DecidableEq α] (l : List α) (s : Finset α) : Decidable (Walks l s) :=
  inferInstanceAs (Decidable (_ ∧ _))

theorem Walks.mem_iff {α : Type*} [DecidableEq α] {l : List α} {s : Finset α} (h : Walks l s)
    {a : α} : a ∈ l ↔ a ∈ s := by
  rw [← h.2, List.mem_toFinset]

namespace JobEntry

/-- The references with which the fork watches `peer`. -/
def refsOf (e : JobEntry) (peer : Address) : Finset WatchRef :=
  (e.watches.filter fun p => p.1 = peer).image Prod.snd

/-- The forks that watch the fork. -/
def watchers (e : JobEntry) : Finset Address := e.watchedBy.image Prod.fst

@[simp] theorem mem_refsOf {e : JobEntry} {peer : Address} {r : WatchRef} :
    r ∈ e.refsOf peer ↔ (peer, r) ∈ e.watches := by
  simp [refsOf]

@[simp] theorem mem_watchers {e : JobEntry} {peer : Address} :
    peer ∈ e.watchers ↔ ∃ r, (peer, r) ∈ e.watchedBy := by
  simp [watchers]

/-- The messages about the end of `fork`: `unwatch_targets`, then an `Exit` to each linked peer,
then one `Down` to each watcher. -/
def farewell (fork : Address) (normalExit : Bool) (o : Order) : List SysMsg :=
  o.targets.map (fun p => .watch (.unwatch fork p.1 p.2)) ++
    o.peers.map (sysLinkExitMessage normalExit fork) ++
    o.watchers.map (sysWatchDownMessage normalExit fork)

end JobEntry

/-- `o` lists the sets of `e` that the end of a fork walks. -/
def Order.Farewell (o : Order) (e : JobEntry) : Prop :=
  Walks o.targets e.watches ∧ Walks o.peers e.linkedTo ∧ Walks o.watchers e.watchers

instance (o : Order) (e : JobEntry) : Decidable (o.Farewell e) :=
  inferInstanceAs (Decidable (_ ∧ _ ∧ _))

/-- The task of a container with its queues. `contexts` are the sub-forks whose context is
alive; `outbox` are the messages the current handler still has to send; `log` is a record of
what was done and is never read. -/
structure Container where
  mainFork : Address
  jobEntries : Address → Option JobEntry
  takenWatchRefs : WatchRef → Option TakenWatch
  nextWatchRef : WatchRef
  trapExit : Bool
  phase : Phase
  contexts : Finset Address
  rxSystem : List SysMsg
  outbox : List SysMsg
  log : List Event

namespace Container

def absent : Container where
  mainFork := ⟨0#64⟩
  jobEntries _ := none
  takenWatchRefs _ := none
  nextWatchRef := 0#64
  trapExit := false
  phase := .absent
  contexts := ∅
  rxSystem := []
  outbox := []
  log := []

/-! ### Elementary updates -/

def setEntry (k : Container) (f : Address) (e : Option JobEntry) : Container :=
  { k with jobEntries := Function.update k.jobEntries f e }

def send (k : Container) (msgs : List SysMsg) : Container :=
  { k with outbox := k.outbox ++ msgs }

def note (k : Container) (events : List Event) : Container :=
  { k with log := k.log ++ events }

def setPhase (k : Container) (phase : Phase) : Container :=
  { k with phase }

/-- Remove the given references from `taken_watch_refs`. -/
def untake (k : Container) (refs : List WatchRef) : Container :=
  { k with takenWatchRefs := fun r => if r ∈ refs then none else k.takenWatchRefs r }

/-- Append a message to the system queue. -/
def enqueue (k : Container) (m : SysMsg) : Container :=
  { k with rxSystem := k.rxSystem ++ [m] }

/-! ### The end of a fork -/

/-- The job entry of `f` is removed and its peers are told. -/
def removeFork (k : Container) (f : Address) (normalExit : Bool) (o : Order) : Option Container :=
  match k.jobEntries f with
  | none => none
  | some e =>
    if o.Farewell e then
      some ((((k.setEntry f none).untake (o.targets.map Prod.snd)).send
        (JobEntry.farewell f normalExit o)).note [.ended f])
    else none

/-! ### System calls -/

/-- The loop that picks a watch reference: the first candidate that is not taken, with the
counter after it. `none` when the fuel is used up; with `2 ^ 64` all candidates were taken and
the source does not return. -/
def freshWatchRef (taken : WatchRef → Option TakenWatch) :
    ℕ → WatchRef → Option (WatchRef × WatchRef)
  | 0, _ => none
  | n + 1, candidate =>
    if (taken candidate).isNone then some (candidate, candidate + 1#64)
    else freshWatchRef taken n (candidate + 1#64)

def handleLink (k : Container) (sender receiver : Address) : Option Container :=
  match k.jobEntries sender with
  | none => none
  | some e =>
    let k := k.note [.linked sender receiver]
    if receiver ∈ e.linkedTo then some k
    else
      some ((k.setEntry sender (some { e with linkedTo := insert receiver e.linkedTo })).send
        [.link (.connect sender receiver)])

def handleUnlink (k : Container) (sender receiver : Address) : Option Container :=
  match k.jobEntries sender with
  | none => none
  | some e =>
    if receiver ∈ e.linkedTo then
      some ((k.setEntry sender (some { e with linkedTo := e.linkedTo.erase receiver })).send
        [.link (.disconnect sender receiver)])
    else some k

def handleWatch (k : Container) (sender receiver : Address) : Option Container :=
  match k.jobEntries sender with
  | none => none
  | some e =>
    match freshWatchRef k.takenWatchRefs (2 ^ 64) k.nextWatchRef with
    | none => none
    | some (watchRef, next) =>
      let k := { k with
        nextWatchRef := next
        takenWatchRefs := Function.update k.takenWatchRefs watchRef (some ⟨sender, receiver⟩) }
      let e := { e with watches := insert (receiver, watchRef) e.watches }
      some (((k.setEntry sender (some e)).send [.watch (.watch sender receiver watchRef)]).note
        [.watched sender receiver watchRef])

def handleUnwatch (k : Container) (watchRef : WatchRef) : Option Container :=
  let k := k.note [.unwatched watchRef]
  match k.takenWatchRefs watchRef with
  | none => some k
  | some ⟨owner, target⟩ =>
    match k.jobEntries owner with
    | none => none
    | some e =>
      let e := { e with watches := e.watches.erase (target, watchRef) }
      some (((k.untake [watchRef]).setEntry owner (some e)).send
        [.watch (.unwatch owner target watchRef)])

/-- A system call in the main loop. -/
def handleCall (k : Container) : SysCall → Option Container
  | .exit isOk => some (k.setPhase (.stopping isOk))
  | .trapExit setInto => some { k with trapExit := setInto }
  | .spawn => some k
  | .forkAdded f =>
    if (k.jobEntries f).isNone then
      some { k.setEntry f (some {}) with contexts := insert f k.contexts }
    else none
  | .link sender receiver => k.handleLink sender receiver
  | .unlink sender receiver => k.handleUnlink sender receiver
  | .watch sender receiver => k.handleWatch sender receiver
  | .unwatch _ watchRef => k.handleUnwatch watchRef

/-! ### System messages in the main loop -/

def handleConnect (k : Container) (sender receiver : Address) : Container :=
  match k.jobEntries receiver with
  | none => k.send [.link (.exit receiver sender .linkDown)]
  | some e =>
    (k.setEntry receiver (some { e with linkedTo := insert sender e.linkedTo })).note
      [.connected receiver sender]

def handleDisconnect (k : Container) (sender receiver : Address) : Container :=
  match k.jobEntries receiver with
  | none => k
  | some e => k.setEntry receiver (some { e with linkedTo := e.linkedTo.erase sender })

/-- An `Exit` for a fork of this container. Without `trap_exit` a `LinkDown` of a linked peer and
every `Terminate` leave the main loop; with it they are put into the priority lane. -/
def handleExit (k : Container) (sender receiver : Address) (reason : ExitReason) : Container :=
  match k.jobEntries receiver with
  | none => k
  | some e =>
    let linked := sender ∈ e.linkedTo
    let unlinked := k.setEntry receiver (some { e with linkedTo := e.linkedTo.erase sender })
    match k.trapExit, reason with
    | false, .normal => unlinked.note [.handledExit receiver sender reason]
    | false, .linkDown =>
      if linked then
        (unlinked.note [.handledExit receiver sender reason]).setPhase (.stopping false)
      else k.note [.handledExit receiver sender reason]
    | false, .terminate =>
      (k.note [.handledExit receiver sender reason]).setPhase (.stopping false)
    | true, .terminate =>
      k.note [.handledExit receiver sender reason, .exited receiver sender false]
    | true, _ =>
      if linked then
        unlinked.note [.handledExit receiver sender reason,
          .exited receiver sender (reason == .normal)]
      else k.note [.handledExit receiver sender reason]

def handleWatchMsg (k : Container) (sender receiver : Address) (watchRef : WatchRef) :
    Container :=
  match k.jobEntries receiver with
  | none => k.send [.watch (.down receiver sender .linkDown)]
  | some e =>
    k.setEntry receiver (some { e with watchedBy := insert (sender, watchRef) e.watchedBy })

def handleUnwatchMsg (k : Container) (sender receiver : Address) (watchRef : WatchRef) :
    Container :=
  match k.jobEntries receiver with
  | none => k
  | some e =>
    k.setEntry receiver (some { e with watchedBy := e.watchedBy.erase (sender, watchRef) })

/-- A `Down` is reported once per reference with which the receiver watches the sender. -/
def handleDown (k : Container) (sender receiver : Address) (reason : ExitReason) (o : Order) :
    Option Container :=
  match k.jobEntries receiver with
  | none => some k
  | some e =>
    if Walks o.refs (e.refsOf sender) then
      let e := { e with
        watchedBy := e.watchedBy.filter fun p => p.1 ≠ sender
        watches := e.watches.filter fun p => p.1 ≠ sender }
      some (((k.setEntry receiver (some e)).untake o.refs).note
        (o.refs.map fun r => .down receiver sender r (reason == .normal)))
    else none

/-- A system message in the main loop. -/
def handleMsg (k : Container) (o : Order) : SysMsg → Option Container
  | .kill => some (k.setPhase (.stopping false))
  | .forkDone f => k.removeFork f true o
  | .link (.connect sender receiver) => some (k.handleConnect sender receiver)
  | .link (.disconnect sender receiver) => some (k.handleDisconnect sender receiver)
  | .link (.exit sender receiver reason) => some (k.handleExit sender receiver reason)
  | .watch (.watch sender receiver watchRef) => some (k.handleWatchMsg sender receiver watchRef)
  | .watch (.unwatch sender receiver watchRef) =>
    some (k.handleUnwatchMsg sender receiver watchRef)
  | .watch (.down sender receiver reason) => k.handleDown sender receiver reason o

/-! ### System messages after the main loop -/

/-- A system message left in the closed queue. A `ForkDone` without an entry is one of a fork
whose `ForkAdded` was never applied. -/
def drainMsg (k : Container) (isOk : Bool) (o : Order) : SysMsg → Option Container
  | .forkDone f => if (k.jobEntries f).isNone then some k else k.removeFork f isOk o
  | .link (.connect sender receiver) => some (k.send [sysLinkExitMessage isOk receiver sender])
  | .watch (.watch sender receiver _) => some (k.send [sysWatchDownMessage isOk receiver sender])
  | .kill | .link (.disconnect _ _) | .link (.exit _ _ _) => some k
  | .watch (.unwatch _ _ _) | .watch (.down _ _ _) => some k

end Container

end Mm1
