import Mm1.Lib.Fallible
import Mm1.Sup.MixedSup
import Mm1.Sup.Start
import Mm1.Sup.UniformChild

/-!
# The uniform supervisor

`uniform_sup` starts its children on request, all of them from one specification. Its table is a
slot map with the status of each child, and an index by address. A child is started in a fork,
which reports the address of the child or the failure.

`UniformSys` is the supervisor together with the forks that have not reported yet. A handler ends
in a new table, in the end of the supervisor, or in a panic: an `assert!`, an `unreachable!` or a
slot that is not there.

* `Children.Moves`: all that a handler can do to the table;
* `Children.Inv`: the index is the inverse of the addresses in the table, and the forks are those
  of the children that are being started; `handle_spec`: one message;
* `children_exact_of_runs`: every order of messages;
* `supervised_of_runs`: a permanent child stays in the table, as long as none of its restarts
  fails. `lost_of_failed_restart` is a restart that fails.
-/

namespace Mm1

open Fallible History Option List Function Roster Transition

/-- The key of a child in the table. -/
abbrev ChildKey := KeyData

/-- `ChildStatus` -/
inductive ChildStatus where
  | starting
  | started (address : Address)
  | stopping (address : Address)
  deriving DecidableEq

/-- The address of a child that has one. -/
def ChildStatus.address : ChildStatus → Option Address
  | .starting => none
  | .started address | .stopping address => some address

/-- The child is started, or is being started. -/
def ChildStatus.isUp : ChildStatus → Bool
  | .starting | .started _ => true
  | .stopping _ => false

/-- `ChildEntry<D>` -/
structure ChildEntry (D : Type) where
  status : ChildStatus
  data : D

/-- `Children<D>` -/
structure Children (D : Type) where
  primary : Roster ChildKey (ChildEntry D)
  byAddress : Address → Option ChildKey

/-- `UniformSup<F, C>`, with the fields of its `ChildSpec`. -/
structure UniformSup (A R D : Type) where
  launcher : A → R
  childType : UniformChildType A R D
  initType : InitType
  stopTimeout : Duration
  announceParent : Bool

/-- What ends the supervisor. -/
inductive SupError where
  /-- `make_runnable` or `should_restart` fails -/
  | childType (reason : ChildTypeError)
  /-- `ctx.fork` fails -/
  | fork (kind : ForkErrorKind)
  /-- "unexpected child-status when received child-started" -/
  | unexpectedStatus (status : ChildStatus)
  /-- `UnknownPeerExited` -/
  | unknownPeerExited (peer : Address)
  /-- a child could not be stopped while reaping -/
  | reap (child : Address)
  deriving DecidableEq

/-- What should not happen in the supervisor. -/
inductive SupPanic where
  /-- `primary[key]` -/
  | noSlot
  /-- `unreachable!("how could we recover child of this state by address?")` -/
  | startingByAddress
  /-- `assert_eq!(a, address)` -/
  | wrongAddress
  /-- `assert!(should_be_none.is_none())` -/
  | addressTaken
  /-- `assert_eq!(should_be_child_key, Some(child_key))` -/
  | notByAddress
  /-- the slot map has no key left -/
  | full
  deriving DecidableEq

/-- Why a `StopRequest` is refused; `StopErrorKind::NotFound` in both cases. -/
inductive StopRefusal where
  /-- "already stopping: {}" -/
  | alreadyStopping (address : Address)
  /-- "unknown address: {}" -/
  | unknownAddress (address : Address)
  deriving DecidableEq

/-- What the supervisor does besides. -/
inductive SupEffect (R : Type) where
  /-- a fork that runs `do_start_child`, and replies to the one who has asked for the child -/
  | startChild (key : ChildKey) (initType : InitType) (announceParent : Bool) (runnable : R)
      (replyTo : Option RequestHeader)
  /-- `do_stop_child`: in a fork for a `StopRequest`, at once while reaping -/
  | stopChild (address : Address) (stopTimeout : Duration) (replyTo : Option RequestHeader)
  | link (address : Address)
  | refuseStop (replyTo : RequestHeader) (refusal : StopRefusal)

/-- What the supervisor is answered while it handles a message. -/
structure SupAnswers where
  slots : Slots ChildKey
  fork : Except ForkErrorKind Unit
  now : Instant
  /-- `ctx.shutdown` of this child succeeds -/
  shutdown : Address → Bool

/-- A message to the supervisor. -/
inductive SupMessage (A : Type) where
  | startRequest (replyTo : RequestHeader) (args : A)
  | childStarted (key : ChildKey) (address : Address)
  | childStartFailed (key : ChildKey)
  | stopRequest (replyTo : RequestHeader) (child : Address)
  | exited (peer : Address) (normalExit : Bool)
  | unexpected

/-- The supervisor: its table, or how it has ended. -/
inductive SupState (D : Type) where
  | running (children : Children D)
  | ended (error : SupError)

/-- The table of a supervisor that is running. -/
def SupState.children? {D : Type} : SupState D → Option (Children D)
  | .running children => some children
  | .ended _ => none

namespace Children

variable {A R D : Type}

/-- The table at the beginning. -/
def empty : Children D := ⟨.empty, fun _ => none⟩

/-- No child has this address. -/
def Free (c : Children D) (address : Address) : Prop :=
  ∀ x ∈ c.primary.entries, x.2.status.address ≠ some address

instance (c : Children D) (address : Address) : Decidable (c.Free address) :=
  inferInstanceAs (Decidable (∀ x ∈ c.primary.entries, _))

/-- `handle_start_request` -/
def handleStartRequest (spec : UniformSup A R D) (ans : SupAnswers) (c : Children D)
    (replyTo : RequestHeader) (args : A) : Except SupPanic (SupState D × List (SupEffect R)) :=
  match spec.childType.makeRunnable spec.launcher (spec.childType.newData args) with
  | (_, .error reason) => .ok (.ended (.childType reason), [])
  | (data, .ok runnable) =>
    match c.primary.insert? ans.slots ⟨.starting, data⟩ with
    | none => .error .full
    | some (key, primary) =>
      match ans.fork with
      | .error kind => .ok (.ended (.fork kind), [])
      | .ok _ =>
        .ok (.running { c with primary },
          [.startChild key spec.initType spec.announceParent runnable (some replyTo)])

/-- `handle_child_started` -/
def handleChildStarted (c : Children D) (key : ChildKey) (address : Address) :
    Except SupPanic (SupState D × List (SupEffect R)) :=
  match c.primary.lookup key with
  | none => .error .noSlot
  | some entry =>
    if entry.status = .starting then
      match c.byAddress address with
      | some _ => .error .addressTaken
      | none =>
        .ok (.running
            { primary := c.primary.modify key fun e => { e with status := .started address }
              byAddress := update c.byAddress address (some key) },
          [.link address])
    else .ok (.ended (.unexpectedStatus entry.status), [])

/-- `handle_child_start_failed` -/
def handleChildStartFailed (c : Children D) (key : ChildKey) : Children D :=
  match c.primary.lookup key with
  | some ⟨.starting, _⟩ => { c with primary := c.primary.erase key }
  | _ => c

/-- `handle_stop_request` -/
def handleStopRequest (spec : UniformSup A R D) (ans : SupAnswers) (c : Children D)
    (replyTo : RequestHeader) (address : Address) :
    Except SupPanic (SupState D × List (SupEffect R)) :=
  match c.byAddress address with
  | none => .ok (.running c, [.refuseStop replyTo (.unknownAddress address)])
  | some key =>
    match c.primary.lookup key with
    | none => .error .noSlot
    | some entry =>
      match entry.status with
      | .starting => .error .startingByAddress
      | .started a =>
        if a = address then
          match ans.fork with
          | .error kind => .ok (.ended (.fork kind), [])
          | .ok _ =>
            .ok (.running { c with
                  primary := c.primary.modify key fun e => { e with status := .stopping address } },
              [.stopChild address spec.stopTimeout (some replyTo)])
        else .error .wrongAddress
      | .stopping a =>
        if a = address then .ok (.running c, [.refuseStop replyTo (.alreadyStopping address)])
        else .error .wrongAddress

/-- `reap_started_children`: the children that are stopped, and the first one that could not be. -/
def reapStartedChildren (spec : UniformSup A R D) (ans : SupAnswers) :
    (Address → Option ChildKey) → List (ChildKey × ChildEntry D) →
      Except SupPanic (Option Address × List (SupEffect R))
  | _, [] => .ok (none, [])
  | byAddress, (key, entry) :: rest =>
    match entry.status with
    | .started address =>
      if byAddress address = some key then do
        let (firstError, effects) ←
          reapStartedChildren spec ans (update byAddress address none) rest
        return (if ans.shutdown address then firstError else some address,
          .stopChild address spec.stopTimeout none :: effects)
      else .error .notByAddress
    | _ => reapStartedChildren spec ans byAddress rest

/-- `handle_sys_exited` -/
def handleSysExited (spec : UniformSup A R D) (ans : SupAnswers) (c : Children D) (peer : Address)
    (normalExit : Bool) : Except SupPanic (SupState D × List (SupEffect R)) :=
  match c.byAddress peer with
  | none => do
    let (firstError, effects) ← reapStartedChildren spec ans c.byAddress c.primary.entries
    return (.ended (firstError.elim (.unknownPeerExited peer) .reap), effects)
  | some key =>
    let byAddress := update c.byAddress peer none
    match c.primary.lookup key with
    | none => .error .noSlot
    | some entry =>
      match entry.status with
      | .starting => .error .startingByAddress
      | .stopping a =>
        if a = peer then .ok (.running ⟨c.primary.erase key, byAddress⟩, [])
        else .error .wrongAddress
      | .started a =>
        match spec.childType.shouldRestart entry.data normalExit ans.now with
        | (_, .error reason) =>
          if a = peer then do
            let (_, effects) ←
              reapStartedChildren spec ans byAddress (c.primary.erase key).entries
            return (.ended (.childType reason), effects)
          else .error .wrongAddress
        | (data, .ok true) =>
          if a = peer then
            match spec.childType.makeRunnable spec.launcher data with
            | (_, .error reason) => .ok (.ended (.childType reason), [])
            | (data, .ok runnable) =>
              match ans.fork with
              | .error kind => .ok (.ended (.fork kind), [])
              | .ok _ =>
                .ok (.running ⟨c.primary.modify key fun _ => ⟨.starting, data⟩, byAddress⟩,
                  [.startChild key spec.initType spec.announceParent runnable none])
          else .error .wrongAddress
        | (_, .ok false) => .ok (.running ⟨c.primary.erase key, byAddress⟩, [])

/-- Handles a message. -/
def handle (spec : UniformSup A R D) (ans : SupAnswers) (c : Children D) :
    SupMessage A → Except SupPanic (SupState D × List (SupEffect R))
  | .startRequest replyTo args => c.handleStartRequest spec ans replyTo args
  | .childStarted key address => c.handleChildStarted key address
  | .childStartFailed key => .ok (.running (c.handleChildStartFailed key), [])
  | .stopRequest replyTo child => c.handleStopRequest spec ans replyTo child
  | .exited peer normalExit => c.handleSysExited spec ans peer normalExit
  | .unexpected => .ok (.running c, [])

end Children

/-! ### The supervisor and its start forks -/

/-- The supervisor, and the keys of the children whose start forks have not reported yet. -/
structure UniformSys (D : Type) where
  sup : SupState D
  forks : List ChildKey

namespace UniformSys

variable {A R D : Type}

/-- The system at the beginning. -/
def init : UniformSys D := ⟨.running .empty, []⟩

/-- The fork that an effect starts a child in. -/
def forkOf : SupEffect R → Option ChildKey
  | .startChild key .. => some key
  | _ => none

/-- The forks that have not reported when a message is handled: it may be the report of one. -/
def unreported (forks : List ChildKey) : SupMessage A → List ChildKey
  | .childStarted key _ | .childStartFailed key => forks.erase key
  | _ => forks

/-- Handle a message. A supervisor that has ended handles none, and a panic is no step. -/
def call (spec : UniformSup A R D) (s : UniformSys D) (l : SupAnswers × SupMessage A) :
    Option (UniformSys D × List (SupEffect R)) :=
  match s.sup with
  | .ended _ => none
  | .running children =>
    (children.handle spec l.1 l.2).toOption.map fun (sup, effects) =>
      (⟨sup, effects.filterMap forkOf ++ unreported s.forks l.2⟩, effects)

/-- A report comes from a fork that has not reported yet, and the address is that of no child. -/
def Expected (s : UniformSys D) : SupMessage A → Prop
  | .childStarted key address => key ∈ s.forks ∧ ∀ c ∈ s.sup.children?, c.Free address
  | .childStartFailed key => key ∈ s.forks
  | _ => True

instance (s : UniformSys D) (m : SupMessage A) : Decidable (s.Expected m) :=
  match m with
  | .childStarted _ _ => inferInstanceAs (Decidable (_ ∧ _))
  | .childStartFailed _ => inferInstanceAs (Decidable (_ ∈ _))
  | .startRequest _ _ | .stopRequest _ _ | .exited _ _ | .unexpected => instDecidableTrue

end UniformSys

/-! ### What a handler can do -/

private theorem ChildStatus.address_eq_some {status : ChildStatus} {a : Address}
    (h : status.address = some a) : status = .started a ∨ status = .stopping a := by
  cases status <;> simp_all [ChildStatus.address]

namespace Children

variable {A R D : Type} {spec : UniformSup A R D} {ans : SupAnswers} {c c' : Children D}
  {forks : List ChildKey} {k : ChildKey} {a : Address} {e : ChildEntry D} {m : SupMessage A}
  {byAddress : Address → Option ChildKey} {effects : List (SupEffect R)} {forks' : List ChildKey}

/-- All that a handler can do to the table. -/
inductive Moves (spec : UniformSup A R D) (c : Children D) :
    SupMessage A → Children D → List (SupEffect R) → Prop
  | start {replyTo : RequestHeader} {args : A} {k : ChildKey} {data : D} {runnable : R}
      (hk : c.primary.lookup k = none) :
      Moves spec c (.startRequest replyTo args)
        { c with primary := c.primary.push k ⟨.starting, data⟩ hk }
        [.startChild k spec.initType spec.announceParent runnable (some replyTo)]
  | started {k : ChildKey} {a : Address} {e : ChildEntry D} (hk : c.primary.lookup k = some e)
      (hs : e.status = .starting) (ha : c.byAddress a = none) :
      Moves spec c (.childStarted k a)
        ⟨c.primary.modify k fun e => { e with status := .started a }, update c.byAddress a (some k)⟩
        [.link a]
  | failed {k : ChildKey} {e : ChildEntry D} (hk : c.primary.lookup k = some e)
      (hs : e.status = .starting) :
      Moves spec c (.childStartFailed k) { c with primary := c.primary.erase k } []
  | stop {replyTo : RequestHeader} {k : ChildKey} {a : Address} {e : ChildEntry D}
      (hk : c.primary.lookup k = some e) (hs : e.status = .started a)
      (ha : c.byAddress a = some k) :
      Moves spec c (.stopRequest replyTo a)
        { c with primary := c.primary.modify k fun e => { e with status := .stopping a } }
        [.stopChild a spec.stopTimeout (some replyTo)]
  | refuseStop {replyTo : RequestHeader} {a : Address} {refusal : StopRefusal} :
      Moves spec c (.stopRequest replyTo a) c [.refuseStop replyTo refusal]
  | stopped {k : ChildKey} {a : Address} {n : Bool} {e : ChildEntry D}
      (hk : c.primary.lookup k = some e) (hs : e.status = .stopping a) :
      Moves spec c (.exited a n) ⟨c.primary.erase k, update c.byAddress a none⟩ []
  | left {k : ChildKey} {a : Address} {n : Bool} {t : Instant} {e : ChildEntry D}
      (hk : c.primary.lookup k = some e) (hs : e.status = .started a)
      (hr : (spec.childType.shouldRestart e.data n t).2 = .ok false) :
      Moves spec c (.exited a n) ⟨c.primary.erase k, update c.byAddress a none⟩ []
  | restart {k : ChildKey} {a : Address} {n : Bool} {e : ChildEntry D} {data : D} {runnable : R}
      (hk : c.primary.lookup k = some e) (hs : e.status = .started a) :
      Moves spec c (.exited a n)
        ⟨c.primary.modify k fun _ => ⟨.starting, data⟩, update c.byAddress a none⟩
        [.startChild k spec.initType spec.announceParent runnable none]
  | unexpected : Moves spec c .unexpected c []

/-- The table agrees with its index, and with the start forks that have not reported. -/
structure Inv (c : Children D) (forks : List ChildKey) : Prop where
  byAddress : ∀ a k, c.byAddress a = some k ↔
    ∃ e, c.primary.lookup k = some e ∧ e.status.address = some a
  nodup : forks.Nodup
  mem_forks : ∀ k, k ∈ forks ↔ ∃ e, c.primary.lookup k = some e ∧ e.status = .starting

private theorem inv_empty : (empty : Children D).Inv [] where
  byAddress a k := by simp [empty]
  nodup := nodup_nil
  mem_forks k := by simp [empty]

/-- What a handler does, in a table that agrees with its index. -/
def Handled (spec : UniformSup A R D) (c : Children D) (m : SupMessage A)
    (r : SupState D × List (SupEffect R)) : Prop :=
  (∃ error, r.1 = .ended error) ∨ ∃ c', r.1 = .running c' ∧ Moves spec c m c' r.2

private theorem Handled.ended {error : SupError} :
    Handled spec c m (.ended error, effects) := .inl ⟨error, rfl⟩

private theorem Moves.handled (h : Moves spec c m c' effects) :
    Handled spec c m (.running c', effects) := .inr ⟨c', rfl, h⟩

/-- What a start request does. -/
private theorem handleStartRequest_spec (replyTo : RequestHeader) (args : A) :
    Ensures (· = .full) (Handled spec c (.startRequest replyTo args))
      (c.handleStartRequest spec ans replyTo args) := by
  rw [handleStartRequest]
  rcases spec.childType.makeRunnable spec.launcher (spec.childType.newData args) with
    ⟨data, reason | runnable⟩
  · exact Handled.ended
  · dsimp only
    split
    case h_1 => rfl
    case h_2 key primary hinsert =>
      obtain ⟨hk, rfl⟩ := Roster.insert?_eq_some hinsert
      split
      · exact Handled.ended
      · exact (Moves.start hk).handled

/-- A child has started. -/
private theorem handleChildStarted_spec (hk : c.primary.lookup k = some e)
    (hs : e.status = .starting) (ha : c.byAddress a = none) :
    Ensures (· = .full) (Handled spec c (.childStarted k a)) (c.handleChildStarted k a) := by
  simp only [handleChildStarted, hk, hs, if_true, ha]
  exact (Moves.started hk hs ha).handled

private theorem handleChildStartFailed_spec (hk : c.primary.lookup k = some e)
    (hs : e.status = .starting) :
    Moves spec c (.childStartFailed k) (c.handleChildStartFailed k) [] := by
  obtain ⟨status, data⟩ := e
  obtain rfl : status = .starting := hs
  rw [handleChildStartFailed, hk]
  exact .failed hk rfl

/-- What a stop request does. -/
private theorem handleStopRequest_spec (hinv : c.Inv forks) (replyTo : RequestHeader)
    (a : Address) :
    Ensures (· = .full) (Handled spec c (.stopRequest replyTo a))
      (c.handleStopRequest spec ans replyTo a) := by
  rw [handleStopRequest]
  cases ha : c.byAddress a with
  | none => exact Moves.refuseStop.handled
  | some k =>
    obtain ⟨e, hk, haddr⟩ := (hinv.byAddress a k).mp ha
    rcases ChildStatus.address_eq_some haddr with hs | hs
    · simp only [hk, hs, if_true]
      split
      · exact Handled.ended
      · exact (Moves.stop hk hs ha).handled
    · simp only [hk, hs, if_true]
      exact Moves.refuseStop.handled

/-- The children that are reaped are found by their addresses. -/
private theorem reapStartedChildren_spec {err : SupPanic → Prop}
    {entries : List (ChildKey × ChildEntry D)} (hnodup : (entries.map Prod.fst).Nodup)
    (h : ∀ x ∈ entries, ∀ a, x.2.status = .started a → byAddress a = some x.1) :
    Ensures err (fun _ => True) (reapStartedChildren spec ans byAddress entries) := by
  induction entries generalizing byAddress with
  | nil => trivial
  | cons x rest ih =>
    obtain ⟨hx, hrest⟩ := forall_mem_cons.mp h
    obtain ⟨hnot, hnodup⟩ := nodup_cons.mp hnodup
    rw [reapStartedChildren]
    split
    case h_1 a hs =>
      rw [if_pos (hx a hs)]
      refine (ih hnodup fun y hy b hb => ?_).bind fun r _ => trivial
      -- no other child has the address
      have hne : b ≠ a := by
        rintro rfl
        have hkey := some.inj ((hrest y hy b hb).symm.trans (hx b hs))
        exact hnot (mem_map.mpr ⟨y, hy, hkey⟩)
      rw [update_of_ne hne]
      exact hrest y hy b hb
    case h_2 => exact ih hnodup hrest

private theorem Inv.started_byAddress (hinv : c.Inv forks) {x : ChildKey × ChildEntry D}
    (hx : x ∈ c.primary.entries) (hs : x.2.status = .started a) : c.byAddress a = some x.1 := by
  refine (hinv.byAddress a x.1).mpr ⟨x.2, lookup_eq_some_iff.mpr hx, ?_⟩
  rw [hs]
  rfl

/-- What the exit of an address does. -/
private theorem handleSysExited_spec (hinv : c.Inv forks) (a : Address) (n : Bool) :
    Ensures (· = .full) (Handled spec c (.exited a n)) (c.handleSysExited spec ans a n) := by
  rw [handleSysExited]
  cases ha : c.byAddress a with
  | none =>
    refine (reapStartedChildren_spec c.primary.nodup fun x hx b hb => ?_).bind
      fun r _ => Handled.ended
    exact hinv.started_byAddress hx hb
  | some k =>
    obtain ⟨e, hk, haddr⟩ := (hinv.byAddress a k).mp ha
    rcases ChildStatus.address_eq_some haddr with hs | hs
    · simp only [hk, hs, if_true]
      rcases hr : spec.childType.shouldRestart e.data n ans.now with ⟨data, reason | restart⟩
      · refine (reapStartedChildren_spec (c.primary.erase k).nodup fun x hx b hb => ?_).bind
          fun r _ => Handled.ended
        obtain ⟨hmem, hne⟩ := mem_filter.mp hx
        have hb' := hinv.started_byAddress hmem hb
        have hba : b ≠ a := by
          rintro rfl
          exact of_decide_eq_true hne (some.inj (hb'.symm.trans ha))
        rw [update_of_ne hba]
        exact hb'
      · cases restart with
        | true =>
          dsimp only
          rcases spec.childType.makeRunnable spec.launcher data with ⟨data', reason | runnable⟩
          · exact Handled.ended
          · dsimp only
            split
            · exact Handled.ended
            · exact (Moves.restart hk hs).handled
        | false => exact (Moves.left hk hs (by rw [hr])).handled
    · simp only [hk, hs, if_true]
      exact (Moves.stopped hk hs).handled

/-- **One message.** -/
theorem handle_spec (hinv : c.Inv forks)
    (hstarted : ∀ k a, m = .childStarted k a → k ∈ forks ∧ c.Free a)
    (hfailed : ∀ k, m = .childStartFailed k → k ∈ forks) :
    Ensures (· = .full) (Handled spec c m) (c.handle spec ans m) := by
  cases m with
  | startRequest replyTo args => exact handleStartRequest_spec replyTo args
  | childStarted k a =>
    obtain ⟨hk, hfree⟩ := hstarted k a rfl
    obtain ⟨e, hlook, hs⟩ := (hinv.mem_forks k).mp hk
    refine handleChildStarted_spec hlook hs (eq_none_iff_forall_ne_some.mpr fun j hj => ?_)
    obtain ⟨e', hlook', haddr⟩ := (hinv.byAddress a j).mp hj
    exact hfree (j, e') (lookup_eq_some_iff.mp hlook') haddr
  | childStartFailed k =>
    obtain ⟨e, hlook, hs⟩ := (hinv.mem_forks k).mp (hfailed k rfl)
    exact (handleChildStartFailed_spec hlook hs).handled
  | stopRequest replyTo a => exact handleStopRequest_spec hinv replyTo a
  | exited a n => exact handleSysExited_spec hinv a n
  | unexpected => exact Moves.unexpected.handled

/-! ### The table over a run -/

section Invariant

variable (hinv : c.Inv forks)

include hinv

/-- The status of the child `k` changes, and no other one. -/
private theorem Inv.modify {f : ChildEntry D → ChildEntry D} (hk : c.primary.lookup k = some e)
    (hby : ∀ a j, byAddress a = some j ↔
      if j = k then (f e).status.address = some a else c.byAddress a = some j)
    (hnodup : forks'.Nodup)
    (hforks : ∀ j, j ∈ forks' ↔ if j = k then (f e).status = .starting else j ∈ forks) :
    Inv ⟨c.primary.modify k f, byAddress⟩ forks' where
  byAddress a j := by
    rw [hby a j, lookup_modify]
    split
    case isTrue hj => simp [hj, hk]
    case isFalse hj => exact hinv.byAddress a j
  nodup := hnodup
  mem_forks j := by
    rw [hforks j, lookup_modify]
    split
    case isTrue hj => simp [hj, hk]
    case isFalse hj => exact hinv.mem_forks j

/-- The child `k` is gone. -/
private theorem Inv.erase (hby : ∀ a j, byAddress a = some j ↔ j ≠ k ∧ c.byAddress a = some j)
    (hnodup : forks'.Nodup) (hforks : ∀ j, j ∈ forks' ↔ j ≠ k ∧ j ∈ forks) :
    Inv ⟨c.primary.erase k, byAddress⟩ forks' where
  byAddress a j := by
    simp only [hby a j, hinv.byAddress a j, lookup_erase_eq_some, and_assoc, exists_and_left]
  nodup := hnodup
  mem_forks j := by
    simp only [hforks j, hinv.mem_forks j, lookup_erase_eq_some, and_assoc, exists_and_left]

/-- The address of a child leads to this child only. -/
private theorem Inv.byAddress_eq (hk : c.primary.lookup k = some e)
    (ha : e.status.address = some a) : c.byAddress a = some k :=
  (hinv.byAddress a k).mpr ⟨e, hk, ha⟩

/-- The index without the address of a child. -/
private theorem Inv.update_none_iff (hk : c.primary.lookup k = some e)
    (ha : e.status.address = some a) (b : Address) (j : ChildKey) :
    update c.byAddress a none b = some j ↔ j ≠ k ∧ c.byAddress b = some j := by
  have hak := hinv.byAddress_eq hk ha
  by_cases hb : b = a
  · subst hb
    simp only [update_self, hak, Option.some.injEq, false_iff, reduceCtorEq]
    rintro ⟨hne, rfl⟩
    exact hne rfl
  · rw [update_of_ne hb]
    refine ⟨fun hj => ⟨?_, hj⟩, fun h => h.2⟩
    rintro rfl
    obtain ⟨e', hk', hb'⟩ := (hinv.byAddress b j).mp hj
    obtain rfl := some.inj (hk.symm.trans hk')
    exact hb (some.inj (hb'.symm.trans ha))

/-- A child has no start fork once it is started. -/
private theorem Inv.notMem_forks (hk : c.primary.lookup k = some e) (hs : e.status ≠ .starting) :
    k ∉ forks := by
  intro hmem
  obtain ⟨e', hk', hs'⟩ := (hinv.mem_forks k).mp hmem
  obtain rfl := some.inj (hk.symm.trans hk')
  exact hs hs'

/-- The addresses of a child that is there. -/
private theorem Inv.byAddress_iff (hk : c.primary.lookup k = some e) (a : Address) :
    c.byAddress a = some k ↔ e.status.address = some a := by
  rw [hinv.byAddress a k, hk]
  simp

/-- **The table stays exact.** -/
theorem Inv.moves (h : Moves spec c m c' effects) :
    c'.Inv (effects.filterMap UniformSys.forkOf ++ UniformSys.unreported forks m) := by
  cases h with
  | @start _ _ k data _ hk =>
    have hnew : k ∉ forks := fun hmem => by
      obtain ⟨e, hk', -⟩ := (hinv.mem_forks k).mp hmem
      simp [hk] at hk'
    refine ⟨fun a j => ?_, nodup_cons.mpr ⟨hnew, hinv.nodup⟩, fun j => ?_⟩
    · rw [hinv.byAddress a j, lookup_push]
      split
      case isTrue hj => simp [hj, hk, ChildStatus.address]
      case isFalse hj => rfl
    · rw [lookup_push]
      refine mem_cons.trans ?_
      split
      case isTrue hj => simp [hj]
      case isFalse hj => simpa [hj, UniformSys.unreported] using hinv.mem_forks j
  | @started k a e hk hs ha =>
    -- the fork of the child has reported, and the address is a new one
    refine hinv.modify hk (fun b j => ?_) (hinv.nodup.erase k) fun j => ?_
    · by_cases hj : j = k
      · subst hj
        rw [if_pos rfl, update_apply]
        split
        case isTrue hb => simp [hb, ChildStatus.address]
        case isFalse hb =>
          simpa [hinv.byAddress_iff hk, hs, ChildStatus.address] using Ne.symm hb
      · rw [if_neg hj, update_apply]
        split
        case isTrue hb => simp [hb, ha, Ne.symm hj]
        case isFalse hb => rfl
    · refine (List.Nodup.mem_erase_iff hinv.nodup).trans ?_
      split
      case isTrue hj => simp [hj]
      case isFalse hj => simp [hj]
  | @failed k e hk hs =>
    refine hinv.erase (fun b j => ⟨fun hj => ⟨?_, hj⟩, fun h => h.2⟩) (hinv.nodup.erase k)
      fun j => List.Nodup.mem_erase_iff hinv.nodup
    rintro rfl
    simp [hinv.byAddress_iff hk, hs, ChildStatus.address] at hj
  | @stop _ k a e hk hs ha =>
    refine hinv.modify hk (fun b j => ?_) hinv.nodup fun j => ?_
    · split
      case isTrue hj =>
        subst hj
        rw [hinv.byAddress_iff hk, hs]
        rfl
      case isFalse hj => rfl
    · split
      case isTrue hj =>
        subst hj
        simpa [UniformSys.forkOf, UniformSys.unreported] using
          hinv.notMem_forks hk (by simp [hs])
      case isFalse hj => rfl
  | refuseStop | unexpected => exact hinv
  | stopped hk hs | left hk hs =>
    refine hinv.erase (hinv.update_none_iff hk (by simp [hs, ChildStatus.address])) hinv.nodup
      fun j => ⟨fun hj => ⟨?_, hj⟩, fun h => h.2⟩
    rintro rfl
    exact hinv.notMem_forks hk (by simp [hs]) hj
  | @restart k a n e data runnable hk hs =>
    -- the child keeps its key, and another fork starts it
    have hnew : k ∉ forks := hinv.notMem_forks hk (by simp [hs])
    refine hinv.modify hk (fun b j => ?_) (nodup_cons.mpr ⟨hnew, hinv.nodup⟩) fun j => ?_
    · rw [hinv.update_none_iff hk (by simp [hs, ChildStatus.address])]
      split
      case isTrue hj => simp [hj, ChildStatus.address]
      case isFalse hj => simp [hj]
    · refine mem_cons.trans ?_
      split
      case isTrue hj => simp [hj]
      case isFalse hj => simp [hj, UniformSys.unreported]

end Invariant

/-- The number of children that are being started. -/
def starting (c : Children D) : ℕ := c.primary.entries.countP fun x => x.2.status = .starting

/-- The children that start are those with a fork. -/
private theorem Inv.starting_eq (hinv : c.Inv forks) : c.starting = forks.length := by
  have hkeys : ((c.primary.entries.filter fun x => x.2.status = .starting).map Prod.fst).Perm
      forks := by
    refine (List.perm_ext_iff_of_nodup ?_ hinv.nodup).mpr fun k => ?_
    · exact c.primary.nodup.sublist (List.filter_sublist.map Prod.fst)
    · rw [hinv.mem_forks k]
      simp only [List.mem_map, List.mem_filter, decide_eq_true_eq, Prod.exists, exists_and_right,
        exists_eq_right, Roster.lookup_eq_some_iff]
  rw [starting, List.countP_eq_length_filter, ← hkeys.length_eq, List.length_map]

end Children

namespace UniformSys

variable {A R D : Type} {spec : UniformSup A R D} {s s' : UniformSys D}
  {l : SupAnswers × SupMessage A} {effects : List (SupEffect R)} {intensity : RestartIntensity}

/-- The table of a supervisor that is running is exact. -/
def Inv (s : UniformSys D) : Prop := ∀ c, s.sup = .running c → c.Inv s.forks

private theorem inv_init : (init : UniformSys D).Inv := by
  intro c hc
  obtain rfl := SupState.running.inj hc
  exact Children.inv_empty

/-- No handler panics, and what it does is one of `Moves`. -/
private theorem handle_of_expected {c : Children D} (hinv : s.Inv) (hs : s.sup = .running c)
    (hok : s.Expected l.2) :
    Ensures (· = .full) (Children.Handled spec c l.2) (c.handle spec l.1 l.2) := by
  refine Children.handle_spec (hinv c hs) ?_ ?_
  · intro k a hm
    rw [hm] at hok
    exact ⟨hok.1, hok.2 c (by rw [hs]; rfl)⟩
  · intro k hm
    rw [hm] at hok
    exact hok

/-- **One step.** -/
theorem moves_of_call (hinv : s.Inv) (hok : s.Expected l.2)
    (h : s.call spec l = some (s', effects)) :
    ∃ c, s.sup = .running c ∧
      s'.forks = effects.filterMap forkOf ++ unreported s.forks l.2 ∧
      ((∃ error, s'.sup = .ended error) ∨
        ∃ c', s'.sup = .running c' ∧ Children.Moves spec c l.2 c' effects) := by
  rw [call] at h
  split at h
  case h_1 => contradiction
  case h_2 c hs =>
    obtain ⟨r, hr, hr'⟩ := map_eq_some_iff.mp h
    obtain ⟨rfl, rfl⟩ := Prod.mk.inj hr'
    exact ⟨c, hs, rfl, (handle_of_expected hinv hs hok).of_ok (eq_ok_of_toOption hr)⟩

/-- A call keeps the invariant. -/
private theorem Inv.call (hinv : s.Inv) (hok : s.Expected l.2)
    (h : s.call spec l = some (s', effects)) : s'.Inv := by
  obtain ⟨c, hs, hforks, ⟨error, hend⟩ | ⟨c', hrun, hmoves⟩⟩ := moves_of_call hinv hok h
  · intro c' hc'
    rw [hend] at hc'
    contradiction
  · intro c'' hc''
    obtain rfl := SupState.running.inj (hrun.symm.trans hc'')
    rw [hforks]
    exact (hinv c hs).moves hmoves

/-! ### Runs -/

/-- The system with the messages that were handled, the latest first. -/
abbrev Run (A R D : Type) := Logged (UniformSys D) (SupAnswers × SupMessage A) (List (SupEffect R))

/-- The runs: messages in any order, where each start fork reports once, with an address that is
that of no child. -/
abbrev Runs (spec : UniformSup A R D) (s : Run A R D) : Prop :=
  Reaches (step (call spec)) (fun s l => s.state.Expected l.2) (.start init) s

private theorem inv_of_runs {s : Run A R D} (h : Runs spec s) : s.state.Inv :=
  log_invariant (P := fun s _ => s.Inv) h inv_init fun hinv hok hcall => hinv.call hok hcall

/-- Temporary children. -/
def temporarySpec : UniformSup Unit Unit (Option Unit) := ⟨id, .temporary, .noAck, 5, false⟩

/-- **The table of `uniform_sup` is exact.** In every run: `by_address` is the inverse of the map
from the children with an address to their addresses, no two children have the same one, there are
as many children that are being started as start forks that have not reported, and no `assert!`,
`unreachable!` or slot index of a handler fails on the next message, whatever it is. -/
theorem children_exact_of_runs {s : Run A R D} (h : Runs spec s) {c : Children D}
    (hs : s.state.sup = .running c) :
    (∀ a k, c.byAddress a = some k ↔ ∃ e, c.primary.lookup k = some e ∧ e.status.address = some a) ∧
      (∀ k k' e e' a, c.primary.lookup k = some e → c.primary.lookup k' = some e' →
        e.status.address = some a → e'.status.address = some a → k = k') ∧
      c.starting = s.state.forks.length ∧
      ∀ (ans : SupAnswers) (m : SupMessage A), s.state.Expected m →
        ∀ panic, c.handle spec ans m = .error panic → panic = .full := by
  have hinv := inv_of_runs h c hs
  refine ⟨hinv.byAddress, fun k k' e e' a hk hk' ha ha' => ?_, hinv.starting_eq,
    fun ans m hok panic hpanic => ?_⟩
  · exact some.inj ((hinv.byAddress_eq hk ha).symm.trans (hinv.byAddress_eq hk' ha'))
  · exact (handle_of_expected (l := (ans, m)) (inv_of_runs h) hs hok).of_error hpanic

/-- A child that is up, and one that starts. -/
theorem children_exact_of_runs_started :
    ∃ (s : Run Unit Unit (Option Unit)) (c : Children (Option Unit)),
      Runs temporarySpec s ∧ s.state.sup = .running c ∧
        c.byAddress ⟨16⟩ = some (slotKey 1) ∧ c.starting = 1 := by
  let ans : SupAnswers := ⟨numbered, .ok (), 20, fun _ => true⟩
  have hreach : Runs temporarySpec _ := reaches_get
    [(ans, .startRequest ⟨1, ⟨8⟩⟩ ()), (ans, .startRequest ⟨2, ⟨8⟩⟩ ()),
      (ans, .childStarted (slotKey 1) ⟨16⟩)] rfl
  obtain ⟨hby, -, hstarting, -⟩ := children_exact_of_runs hreach rfl
  exact ⟨_, _, hreach, rfl, (hby _ _).mpr ⟨_, rfl, rfl⟩, hstarting.trans rfl⟩

/-! ### Permanent children -/

/-- The message reports that the child was started. -/
def reportsStart (k : ChildKey) : SupMessage A → Bool
  | .childStarted key _ => key = k
  | _ => false

/-- The message reports that the child could not be started. -/
def reportsFailure (k : ChildKey) : SupMessage A → Bool
  | .childStartFailed key => key = k
  | _ => false

/-- The message is a `StopRequest` for the child. -/
def asksToStop (k : ChildKey) (s : UniformSys D) : SupMessage A → Bool
  | .stopRequest _ address => (s.sup.children?.bind (·.byAddress address)) = some k
  | _ => false

/-- The child is in the table, started or being started. -/
def Supervised (k : ChildKey) (s : UniformSys D) : Prop :=
  ∃ c e, s.sup = .running c ∧ c.primary.lookup k = some e ∧ e.status.isUp = true

private theorem shouldRestart_permanent_ne (data : ChildData A) (n : Bool) (now : Instant) :
    ((UniformChildType.permanent intensity : UniformChildType A R _).shouldRestart data n now).2 ≠
      .ok false := by
  rw [UniformChildType.permanent, UniformChildType.shouldRestart_restarting]
  split <;> simp

/-- A child that is not told to stop, and whose start does not fail. -/
private theorem supervised_moves {spec : UniformSup A R (ChildData A)}
    {c c' : Children (ChildData A)} {m : SupMessage A} {k : ChildKey} {e : ChildEntry (ChildData A)}
    (hspec : spec.childType = .permanent intensity) (h : Children.Moves spec c m c' effects)
    (hk : c.primary.lookup k = some e) (hup : e.status.isUp = true)
    (hstop : ∀ replyTo a, m = .stopRequest replyTo a → c.byAddress a ≠ some k)
    (hfail : m ≠ .childStartFailed k) :
    ∃ e', c'.primary.lookup k = some e' ∧ e'.status.isUp = true := by
  cases h with
  | start hj =>
    refine ⟨e, ?_, hup⟩
    rw [lookup_push, if_neg, hk]
    rintro rfl
    simp [hk] at hj
  | @started j a =>
    rw [lookup_modify]
    split
    · exact ⟨{ e with status := .started a }, by rw [hk]; rfl, rfl⟩
    · exact ⟨e, hk, hup⟩
  | @failed j =>
    refine ⟨e, lookup_erase_eq_some.mpr ⟨?_, hk⟩, hup⟩
    rintro rfl
    exact hfail rfl
  | @stop replyTo j a _ _ _ ha =>
    refine ⟨e, ?_, hup⟩
    rw [lookup_modify, if_neg, hk]
    rintro rfl
    exact hstop replyTo a rfl ha
  | stopped hj hs =>
    refine ⟨e, lookup_erase_eq_some.mpr ⟨?_, hk⟩, hup⟩
    rintro rfl
    obtain rfl := some.inj (hk.symm.trans hj)
    simp [hs, ChildStatus.isUp] at hup
  | left _ _ hr =>
    rw [hspec] at hr
    exact absurd hr (shouldRestart_permanent_ne _ _ _)
  | @restart j _ _ _ data =>
    rw [lookup_modify]
    split
    · exact ⟨⟨.starting, data⟩, by rw [hk]; rfl, rfl⟩
    · exact ⟨e, hk, hup⟩
  | refuseStop | unexpected => exact ⟨e, hk, hup⟩

/-- **A permanent child stays under supervision.** In every run, a child that was reported as
started, was not the subject of a `StopRequest` since, and none of whose starts was reported as
failed since, is in the table, started or being started, unless the supervisor has ended with an
error. -/
theorem supervised_of_runs {intensity : RestartIntensity} {spec : UniformSup A R (ChildData A)}
    (hspec : spec.childType = .permanent intensity) {s : Run A R (ChildData A)}
    (h : Runs spec s) {k : ChildKey}
    (hk : Since (fun e => reportsStart k e.label.2 = true)
      (fun e => asksToStop k e.before e.label.2 = false ∧ reportsFailure k e.label.2 = false)
      s.log) :
    (∃ error, s.state.sup = .ended error) ∨ s.state.Supervised k := by
  refine (log_invariant (P := fun s log => s.Inv ∧ (Since (fun e => reportsStart k e.label.2 = true)
      (fun e => asksToStop k e.before e.label.2 = false ∧ reportsFailure k e.label.2 = false) log →
      (∃ error, s.sup = .ended error) ∨ s.Supervised k)) h ?_ ?_).2 hk
  · exact ⟨inv_init, fun h => h.elim⟩
  · intro s s' log l effects ih hok hcall
    refine ⟨ih.1.call hok hcall, fun hsince => ?_⟩
    obtain ⟨c, hs, -, hend | ⟨c', hs', hmoves⟩⟩ := moves_of_call ih.1 hok hcall
    · exact .inl hend
    · right
      rcases hsince with hreport | ⟨⟨hstop, hfail⟩, hsince⟩
      · -- the report of the start
        obtain ⟨ans, m⟩ := l
        cases hmoves with
        | @started j a e hj =>
          obtain rfl : j = k := by simpa [reportsStart] using hreport
          exact ⟨_, { e with status := .started a }, hs', lookup_modify_self hj, rfl⟩
        | _ => simp [reportsStart] at hreport
      · rcases ih.2 hsince with ⟨error, hend⟩ | ⟨c'', e, hs'', hk, hup⟩
        · simp [hs] at hend
        · obtain rfl := SupState.running.inj (hs.symm.trans hs'')
          have hstop' : ∀ replyTo a, l.2 = .stopRequest replyTo a → c.byAddress a ≠ some k := by
            intro replyTo a hm ha
            simp [asksToStop, hm, hs, SupState.children?, ha] at hstop
          have hfail' : l.2 ≠ .childStartFailed k := by
            intro hm
            simp [reportsFailure, hm] at hfail
          obtain ⟨e', hk', hup'⟩ := supervised_moves hspec hmoves hk hup hstop' hfail'
          exact ⟨c', e', hs', hk', hup'⟩

/-- A permanent child is asked for, started, and fails. -/
def failingChild : List (SupAnswers × SupMessage Unit) :=
  let ans : SupAnswers := ⟨numbered, .ok (), 20, fun _ => true⟩
  [(ans, .startRequest ⟨1, ⟨8⟩⟩ ()), (ans, .childStarted (slotKey 1) ⟨16⟩),
    (ans, .exited ⟨16⟩ false)]

/-- Permanent children, at most one restart in ten units of time. -/
def permanentSpec : UniformSup Unit Unit (ChildData Unit) :=
  ⟨id, .permanent ⟨1, 10⟩, .noAck, 5, false⟩

/-- A child that is started again. -/
theorem supervised_of_runs_restarting :
    ∃ s : Run Unit Unit (ChildData Unit), Runs permanentSpec s ∧
      s.state.Supervised (slotKey 1) := by
  have hreach : Runs permanentSpec _ := reaches_get failingChild rfl
  refine ⟨_, hreach, (supervised_of_runs rfl hreach (by decide)).resolve_left ?_⟩
  rintro ⟨error, hend⟩
  contradiction

/-- **A restart that fails.** The child was started, nobody has asked for its end, and it is not in
the table any more, while the supervisor goes on. -/
theorem lost_of_failed_restart :
    ∃ (s : Run Unit Unit (ChildData Unit)) (c : Children (ChildData Unit)),
      Runs permanentSpec s ∧
        Since (fun e => reportsStart (slotKey 1) e.label.2 = true)
          (fun e => asksToStop (slotKey 1) e.before e.label.2 = false) s.log ∧
        s.state.sup = .running c ∧ c.primary.entries.map Prod.fst = [] := by
  have hreach : Runs permanentSpec _ := reaches_get (failingChild ++
    [(⟨numbered, .ok (), 21, fun _ => true⟩, .childStartFailed (slotKey 1))]) rfl
  exact ⟨_, _, hreach, by decide, rfl, rfl⟩

end UniformSys

end Mm1
