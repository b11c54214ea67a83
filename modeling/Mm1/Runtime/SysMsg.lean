import Mm1.Address.Basic

/-!
# System messages and system calls

The messages containers send to each other (`SysMsg`) and the requests the contexts of an actor
make to their own container (`SysCall`).

`SysMsg.route` is the pair of forks a message is about. `SysMsg.answer` is what the sender of a
`Connect` or of a `Watch` is told when the receiver is gone. The sending container also queues it
to itself when `sys_send` fails; the failure of every other message is ignored.
-/

namespace Mm1

/-- `system::WatchRef`, a `u64`. -/
abbrev WatchRef := U64

inductive ExitReason where
  | normal
  | terminate
  | linkDown
  deriving DecidableEq, Repr

inductive SysLink where
  | connect (sender receiver : Address)
  | disconnect (sender receiver : Address)
  | exit (sender receiver : Address) (reason : ExitReason)
  deriving DecidableEq, Repr

inductive SysWatch where
  | watch (sender receiver : Address) (watchRef : WatchRef)
  | unwatch (sender receiver : Address) (watchRef : WatchRef)
  | down (sender receiver : Address) (reason : ExitReason)
  deriving DecidableEq, Repr

/-- The lease that `ForkDone` carries is the one of the fork's own address. -/
inductive SysMsg where
  | kill
  | link (sysLink : SysLink)
  | watch (sysWatch : SysWatch)
  | forkDone (forkAddress : Address)
  deriving DecidableEq, Repr

/-- A request to the container. `exit` carries whether its result is `Ok`; the job of `spawn`
is not modelled, only the calls it makes. -/
inductive SysCall where
  | exit (isOk : Bool)
  | trapExit (setInto : Bool)
  | link (sender receiver : Address)
  | unlink (sender receiver : Address)
  | forkAdded (forkAddress : Address)
  | spawn
  | watch (sender receiver : Address)
  | unwatch (sender : Address) (watchRef : WatchRef)
  deriving DecidableEq, Repr

def ExitReason.ofNormal (normalExit : Bool) : ExitReason :=
  if normalExit then .normal else .linkDown

@[simp] theorem ExitReason.ofNormal_ne_terminate (b : Bool) :
    ExitReason.ofNormal b ≠ .terminate := by
  cases b <;> decide

/-- `sys_link_exit_message`. -/
def sysLinkExitMessage (normalExit : Bool) (sender receiver : Address) : SysMsg :=
  .link (.exit sender receiver (.ofNormal normalExit))

/-- `sys_watch_down_message`. -/
def sysWatchDownMessage (normalExit : Bool) (sender receiver : Address) : SysMsg :=
  .watch (.down sender receiver (.ofNormal normalExit))

variable {reason : ExitReason} {m m' : SysMsg}

namespace SysMsg

/-- The sender and the receiver of a message, if it is from one fork to another. -/
def route : SysMsg → Option (Address × Address)
  | kill | forkDone _ => none
  | link (.connect x y) | link (.disconnect x y) | link (.exit x y _) => some (x, y)
  | watch (.watch x y _) | watch (.unwatch x y _) | watch (.down x y _) => some (x, y)

/-- What the sender is told when the receiver is gone. -/
def answer (reason : ExitReason) : SysMsg → Option SysMsg
  | link (.connect x y) => some (link (.exit y x reason))
  | watch (.watch x y _) => some (watch (.down y x reason))
  | _ => none

/-- A message that is sent only on behalf of a live fork. -/
def IsRequest : SysMsg → Prop
  | link (.connect _ _) | link (.disconnect _ _) | watch (.watch _ _ _) => True
  | _ => False

/-- Only a `Connect` and a `Watch` are answered. -/
theorem answer_cases (h : m.answer reason = some m') :
    (∃ x y, m = .link (.connect x y) ∧ m' = .link (.exit y x reason)) ∨
      ∃ x y r, m = .watch (.watch x y r) ∧ m' = .watch (.down y x reason) := by
  unfold answer at h
  split at h
  case h_1 x y => exact .inl ⟨x, y, rfl, (Option.some.inj h).symm⟩
  case h_2 x y r => exact .inr ⟨x, y, r, rfl, (Option.some.inj h).symm⟩
  case h_3 => contradiction

theorem route_of_answer (h : m.answer reason = some m') :
    ∃ x y, m.route = some (x, y) ∧ m'.route = some (y, x) := by
  rcases answer_cases h with ⟨x, y, rfl, rfl⟩ | ⟨x, y, r, rfl, rfl⟩
  · exact ⟨x, y, rfl, rfl⟩
  · exact ⟨x, y, rfl, rfl⟩

theorem not_isRequest_of_answer (h : m.answer reason = some m') : ¬ m'.IsRequest := by
  rcases answer_cases h with ⟨x, y, -, rfl⟩ | ⟨x, y, r, -, rfl⟩
  · exact id
  · exact id

end SysMsg

end Mm1
