import Mathlib.Algebra.Group.Nat.Defs
import Mm1.Address.Basic
import Mm1.Lib.Fallible
import Mm1.Lib.Roster
import Mm1.Lib.Transition

/-!
# The tasks of a node

A node that shuts down has to know when nothing of it is running any more. `ContainerTaskRegistry`
counts the spawns that are under way, by the permits that were given out for them, and lists the
tasks that were spawned. A task has a guard that takes it off the list when its future is gone. It
starts to run when it has been listed: until then it waits for a message from `spawn_on`.

All this is done under one lock. Meanwhile the executor does as it likes with a task it was given:
it may poll it, and it may drop it at any time, even before it is listed. Only the guard waits for
the lock.

* `Inv`: permits are counted, and the tasks with a guard are listed, except for one that is being
  spawned;
* `call_spec`: what one step keeps, and what it can return once the registry is closed;
* `tasks_exact_of_runs`: every run.
-/

namespace Mm1

open Transition Fallible Option Roster

/-- `task_id` -/
abbrev TaskId := BitVec 64

/-- `TrackedTask` -/
structure TrackedTask where
  address : Address
  /-- the task that the handle is of -/
  abortHandle : ℕ
  deriving DecidableEq

/-- `SpawnPermit` -/
structure SpawnPermit where
  pending : Bool
  deriving DecidableEq

/-- `SpawnRejected` -/
structure SpawnRejected where
  deriving DecidableEq

/-- What ends the process. A panic under the lock does: the permit is dropped, and the lock is
poisoned. -/
inductive TaskPanic where
  /-- `pending_spawns += 1` -/
  | overflow
  /-- `pending_spawns -= 1` -/
  | underflow
  /-- `assert!(previous.is_none())` -/
  | duplicateTask
  /-- a reference count is greater than `isize::MAX` -/
  | arcOverflow
  deriving DecidableEq

/-- What `ContainerTaskRegistry` has behind its lock. -/
structure TaskRegistry where
  closing : Bool
  nextTaskId : TaskId
  pendingSpawns : ℕ
  tasks : Roster TaskId TrackedTask

namespace TaskRegistry

/-- `ContainerTaskRegistry::new` -/
def new : TaskRegistry := ⟨false, 0, 0, .empty⟩

/-- `state.pending_spawns -= 1` -/
def release (r : TaskRegistry) : Except TaskPanic TaskRegistry :=
  match r.pendingSpawns with
  | 0 => .error .underflow
  | pendingSpawns + 1 => .ok { r with pendingSpawns }

/-- `ContainerTaskRegistry::reserve_spawn` -/
def reserveSpawn (r : TaskRegistry) : Except TaskPanic (Option SpawnPermit × TaskRegistry) :=
  if r.closing then .ok (none, r)
  else if r.pendingSpawns + 1 < 2 ^ 64 then
    .ok (some ⟨true⟩, { r with pendingSpawns := r.pendingSpawns + 1 })
  else .error .overflow

/-- `ContainerTaskRegistry::close` -/
def close (r : TaskRegistry) : TaskRegistry := { r with closing := true }

/-- `ContainerTaskRegistry::is_empty` -/
def isEmpty (r : TaskRegistry) : Bool := r.pendingSpawns = 0 && r.tasks.entries.isEmpty

/-- `Drop for CompletionGuard` -/
def remove (r : TaskRegistry) (taskId : TaskId) : TaskRegistry :=
  { r with tasks := r.tasks.erase taskId }

end TaskRegistry

namespace SpawnPermit

/-- `Drop for SpawnPermit` -/
def drop (p : SpawnPermit) (r : TaskRegistry) : Except TaskPanic TaskRegistry :=
  if p.pending then r.release else .ok r

/-- `SpawnPermit::spawn_on` up to `executor.spawn`, with the id of the new task. -/
def spawnOn (p : SpawnPermit) (r : TaskRegistry) :
    Except TaskPanic (Option TaskId × SpawnPermit × TaskRegistry) :=
  if r.closing then do
    let r ← r.release
    return (none, { p with pending := false }, r)
  else .ok (some r.nextTaskId, p, { r with nextTaskId := r.nextTaskId + 1 })

/-- `SpawnPermit::spawn_on` after `executor.spawn`. -/
def track (p : SpawnPermit) (r : TaskRegistry) (taskId : TaskId) (task : TrackedTask) :
    Except TaskPanic (SpawnPermit × TaskRegistry) :=
  match r.tasks.lookup taskId with
  | some _ => .error .duplicateTask
  | none => do
    let r ← { r with tasks := r.tasks.put taskId task }.release
    return ({ p with pending := false }, r)

end SpawnPermit

/-! ### The executor and those who hold permits -/

/-- Where the future of a task is. -/
inductive TaskPhase where
  /-- before `start_rx` has been sent to -/
  | waiting
  /-- `start_rx` has been sent to -/
  | started
  /-- in `task.await` -/
  | running
  /-- all that is left of it is the guard -/
  | ended
  deriving DecidableEq

/-- A task that the executor was given. -/
structure SpawnedTask where
  taskId : TaskId
  phase : TaskPhase
  /-- `start_rx` has not been dropped -/
  receiver : Bool
  deriving DecidableEq

namespace SpawnedTask

/-- `start_tx.send(())` -/
def start (t : SpawnedTask) : SpawnedTask :=
  { t with phase := if t.phase = .waiting then .started else t.phase }

/-- The executor polls the future, and `start_rx` is ready. -/
def poll (t : SpawnedTask) : Option SpawnedTask :=
  if t.phase = .started then some { t with phase := .running } else none

/-- `task` is over. -/
def finish (t : SpawnedTask) : Option SpawnedTask :=
  if t.phase = .running then some { t with phase := .ended } else none

/-- The executor drops the future. What it drops first depends on whether the future has been
polled. -/
def abort (t : SpawnedTask) (receiverFirst : Bool) : Option SpawnedTask :=
  if t.phase = .ended then none
  else some { t with phase := .ended, receiver := t.receiver && !receiverFirst }

end SpawnedTask

/-- A call of `spawn_on` that has the lock and has spawned its task. -/
structure Spawning where
  permit : ℕ
  address : Address
  handle : ℕ
  taskId : TaskId
  deriving DecidableEq

/-- The registry, the permits that are neither used nor dropped, and the tasks whose guard has not
been dropped. -/
structure NodeTasks where
  registry : TaskRegistry
  permits : Roster ℕ SpawnPermit
  nextPermit : ℕ
  live : Roster ℕ SpawnedTask
  nextHandle : ℕ
  /-- the call of `spawn_on` that has the lock -/
  lock : Option Spawning

namespace NodeTasks

/-- What a call returns. -/
inductive Reply where
  | done
  | permit (permit : Option ℕ)
  | spawned (result : Except SpawnRejected Unit)
  | empty (isEmpty : Bool)

/-- A step of the node. -/
inductive Label where
  | reserveSpawn
  | dropPermit (permit : ℕ)
  | spawnOn (permit : ℕ) (address : Address)
  /-- the call of `spawn_on` that has the lock goes on -/
  | track
  | close
  /-- a look of `wait_for_empty` -/
  | isEmpty
  | poll (handle : ℕ)
  | finish (handle : ℕ)
  | abort (handle : ℕ) (receiverFirst : Bool)
  | dropGuard (handle : ℕ)

/-- The node as it starts. -/
def new : NodeTasks := ⟨.new, .empty, 0, .empty, 0, none⟩

/-- `reserve_spawn`. A permit has a reference to the registry. -/
def reserveSpawn (w : NodeTasks) : Except TaskPanic (NodeTasks × Reply) := do
  match ← w.registry.reserveSpawn with
  | (none, registry) => return ({ w with registry }, .permit none)
  | (some permit, registry) =>
    if w.permits.entries.length < 2 ^ 63 then
      return ({ w with
        registry
        permits := w.permits.put w.nextPermit permit
        nextPermit := w.nextPermit + 1 }, .permit (some w.nextPermit))
    else .error .arcOverflow

/-- A permit is dropped. -/
def dropPermit (w : NodeTasks) (k : ℕ) (permit : SpawnPermit) :
    Except TaskPanic (NodeTasks × Reply) := do
  let registry ← permit.drop w.registry
  return ({ w with registry, permits := w.permits.erase k }, .done)

/-- `spawn_on` takes the lock. -/
def spawnOn (w : NodeTasks) (k : ℕ) (permit : SpawnPermit) (address : Address) :
    Except TaskPanic (NodeTasks × Reply) := do
  match ← permit.spawnOn w.registry with
  | (none, permit, registry) =>
    let registry ← permit.drop registry
    return ({ w with registry, permits := w.permits.erase k }, .spawned (.error ⟨⟩))
  | (some taskId, _, registry) =>
    return ({ w with
      registry
      live := w.live.put w.nextHandle ⟨taskId, .waiting, true⟩
      nextHandle := w.nextHandle + 1
      lock := some ⟨k, address, w.nextHandle, taskId⟩ }, .done)

/-- `spawn_on` goes on, lists the task, starts it and gives the lock back. -/
def track (w : NodeTasks) (sp : Spawning) (permit : SpawnPermit) (task : SpawnedTask) :
    Except TaskPanic (NodeTasks × Reply) := do
  let (permit, registry) ← permit.track w.registry sp.taskId ⟨sp.address, sp.handle⟩
  let registry ← permit.drop registry
  return ({ w with
    registry
    permits := w.permits.erase sp.permit
    live := w.live.modify sp.handle SpawnedTask.start
    lock := none }, .spawned (if task.receiver then .ok () else .error ⟨⟩))

/-- The executor does something with a task. -/
def change (w : NodeTasks) (handle : ℕ) (f : SpawnedTask → Option SpawnedTask) :
    Option (NodeTasks × Reply) :=
  ((w.live.lookup handle).bind f).map fun task =>
    ({ w with live := w.live.modify handle fun _ => task }, .done)

/-- The guard of a task is dropped. -/
def dropGuard (w : NodeTasks) (handle : ℕ) : Option (NodeTasks × Reply) :=
  ((w.live.lookup handle).filter fun task => task.phase = .ended).map fun task =>
    ({ w with registry := w.registry.remove task.taskId, live := w.live.erase handle }, .done)

/-- A step: what takes the lock waits until it is free. -/
def call (w : NodeTasks) : Label → Option (Except TaskPanic (NodeTasks × Reply))
  | .reserveSpawn => if w.lock.isSome then none else some w.reserveSpawn
  | .dropPermit k =>
    if w.lock.isSome then none else (w.permits.lookup k).map fun permit => w.dropPermit k permit
  | .spawnOn k address =>
    if w.lock.isSome then none
    else (w.permits.lookup k).map fun permit => w.spawnOn k permit address
  | .track =>
    w.lock.bind fun sp => (w.permits.lookup sp.permit).bind fun permit =>
      (w.live.lookup sp.handle).map fun task => w.track sp permit task
  | .close =>
    if w.lock.isSome then none else some (.ok ({ w with registry := w.registry.close }, .done))
  | .isEmpty =>
    if w.lock.isSome then none else some (.ok (w, .empty w.registry.isEmpty))
  | .poll handle => (w.change handle SpawnedTask.poll).map .ok
  | .finish handle => (w.change handle SpawnedTask.finish).map .ok
  | .abort handle receiverFirst => (w.change handle (·.abort receiverFirst)).map .ok
  | .dropGuard handle => if w.lock.isSome then none else (w.dropGuard handle).map .ok

/-- The steps of the node. -/
def step (w : NodeTasks) (l : Label) : Option NodeTasks :=
  match w.call l with
  | some (.ok (w', _)) => some w'
  | _ => none

/-! ### What every step keeps -/

variable {w w' : NodeTasks} {k h : ℕ} {p : SpawnPermit} {t t' : SpawnedTask} {sp : Spawning}
  {l : Label} {o : Reply} {x : Except TaskPanic (NodeTasks × Reply)}

/-- The id of a task that has a guard. -/
def idOf (w : NodeTasks) (handle : ℕ) : Option TaskId :=
  (w.live.lookup handle).map SpawnedTask.taskId

/-- Permits are counted, and the tasks that have a guard are listed, except for one that is being
spawned. -/
structure Inv (w : NodeTasks) : Prop where
  pending : w.registry.pendingSpawns = w.permits.entries.length
  room : w.permits.entries.length ≤ 2 ^ 63
  permit : ∀ k p, w.permits.lookup k = some p → p.pending = true ∧ k < w.nextPermit
  handle : ∀ h id, w.idOf h = some id → h < w.nextHandle
  listed : ∀ id task, w.registry.tasks.lookup id = some task →
    w.idOf task.abortHandle = some id ∧ ∀ sp ∈ w.lock, sp.handle ≠ task.abortHandle
  lists : ∀ h id, w.idOf h = some id → (∀ sp ∈ w.lock, sp.handle ≠ h) →
    ∃ address, w.registry.tasks.lookup id = some ⟨address, h⟩
  /-- a task that is being spawned does not run -/
  spawning : ∀ sp ∈ w.lock, w.registry.closing = false ∧ w.idOf sp.handle = some sp.taskId ∧
    ∀ t, w.live.lookup sp.handle = some t → t.phase = .waiting ∨ t.phase = .ended

private theorem inv_new : new.Inv where
  pending := rfl
  room := by decide
  permit k p hp := by simp [new] at hp
  handle h id hid := by simp [new, idOf] at hid
  listed id task hlookup := by simp [new, TaskRegistry.new] at hlookup
  lists h id hid := by simp [new, idOf] at hid
  spawning sp hsp := by simp [new] at hsp

/-- Every change that the executor makes keeps the id of the task, and does not make it run before
it is started. -/
private theorem Inv.change (hw : w.Inv) (ht : w.live.lookup h = some t)
    {g : SpawnedTask → SpawnedTask} (hid : (g t).taskId = t.taskId)
    (hphase : t.phase = .waiting ∨ t.phase = .ended →
      (g t).phase = .waiting ∨ (g t).phase = .ended) :
    Inv { w with live := w.live.modify h g } := by
  have hidOf : ∀ h', idOf { w with live := w.live.modify h g } h' = w.idOf h' := by
    intro h'
    simp only [idOf, lookup_modify]
    split
    case isTrue heq => rw [heq, ht, map_some, map_some, map_some, hid]
    case isFalse => rfl
  refine { hw with handle := ?_, listed := ?_, lists := ?_, spawning := ?_ }
  · simp only [hidOf]
    exact hw.handle
  · simp only [hidOf]
    exact hw.listed
  · simp only [hidOf]
    exact hw.lists
  · intro sp hsp
    obtain ⟨hclosing, hspid, hwait⟩ := hw.spawning sp hsp
    refine ⟨hclosing, (hidOf _).trans hspid, fun t' ht' => ?_⟩
    rw [lookup_modify] at ht'
    split at ht'
    case isTrue heq =>
      rw [heq, ht, map_some] at ht'
      obtain rfl := some.inj ht'
      exact hphase (hwait t (heq ▸ ht))
    case isFalse => exact hwait t' ht'

/-! ### Permits -/

private theorem release_of_pos {r : TaskRegistry} {n : ℕ} (hr : r.pendingSpawns = n + 1) :
    r.release = .ok { r with pendingSpawns := n } := by
  rw [TaskRegistry.release, hr]

/-- The node without a permit. -/
def without (w : NodeTasks) (k : ℕ) : NodeTasks :=
  { w with
    registry := { w.registry with pendingSpawns := (w.permits.erase k).entries.length }
    permits := w.permits.erase k }

private theorem Inv.pending_eq_succ (hw : w.Inv) (hp : w.permits.lookup k = some p) :
    w.registry.pendingSpawns = (w.permits.erase k).entries.length + 1 := by
  rw [hw.pending, (perm_erase hp).length_eq, List.length_cons]

/-- **A permit that is given back is counted once.** -/
theorem Inv.without (hw : w.Inv) (hp : w.permits.lookup k = some p) : (w.without k).Inv where
  pending := rfl
  room := by
    have hlen := (perm_erase hp).length_eq
    have hroom := hw.room
    rw [hlen, List.length_cons] at hroom
    exact Nat.le_of_succ_le hroom
  permit k' p' hp' := hw.permit k' p' (lookup_erase_eq_some.mp hp').2
  handle := hw.handle
  listed := hw.listed
  lists := hw.lists
  spawning := hw.spawning

private theorem Inv.dropPermit (hw : w.Inv) (hp : w.permits.lookup k = some p) :
    w.dropPermit k p = .ok (w.without k, .done) := by
  rw [NodeTasks.dropPermit, SpawnPermit.drop, if_pos (hw.permit k p hp).1,
    release_of_pos (hw.pending_eq_succ hp)]
  rfl

/-! ### Spawning -/

/-- The node in a call of `spawn_on` that has spawned its task. -/
def spawned (w : NodeTasks) (k : ℕ) (address : Address) : NodeTasks :=
  { w with
    registry := { w.registry with nextTaskId := w.registry.nextTaskId + 1 }
    live := w.live.put w.nextHandle ⟨w.registry.nextTaskId, .waiting, true⟩
    nextHandle := w.nextHandle + 1
    lock := some ⟨k, address, w.nextHandle, w.registry.nextTaskId⟩ }

private theorem Inv.spawnOn (hw : w.Inv) (hp : w.permits.lookup k = some p) (address : Address) :
    w.spawnOn k p address =
      if w.registry.closing then .ok (w.without k, .spawned (.error ⟨⟩))
      else .ok (w.spawned k address, .done) := by
  rw [NodeTasks.spawnOn, SpawnPermit.spawnOn]
  split
  · rw [release_of_pos (hw.pending_eq_succ hp)]
    rfl
  · rfl

private theorem idOf_spawned {address : Address} : (w.spawned k address).idOf h =
    if h = w.nextHandle then some w.registry.nextTaskId else w.idOf h := by
  rw [idOf, spawned, lookup_put]
  split <;> rfl

/-- A task that is spawned keeps the invariant. -/
private theorem Inv.spawned (hw : w.Inv) (hlock : w.lock = none)
    (hclosing : w.registry.closing = false) (address : Address) : (w.spawned k address).Inv where
  pending := hw.pending
  room := hw.room
  permit := hw.permit
  handle h id hid := by
    rw [idOf_spawned] at hid
    split at hid
    case isTrue heq => exact heq ▸ Nat.lt_succ_self _
    case isFalse => exact Nat.lt_succ_of_lt (hw.handle h id hid)
  listed id task hlookup := by
    obtain ⟨hid, -⟩ := hw.listed id task hlookup
    have hne : task.abortHandle ≠ w.nextHandle := (hw.handle _ _ hid).ne
    refine ⟨by rw [idOf_spawned, if_neg hne, hid], fun sp hsp => ?_⟩
    obtain rfl := some.inj hsp
    exact hne.symm
  lists h id hid hsp := by
    have hne : h ≠ w.nextHandle := (hsp _ rfl).symm
    rw [idOf_spawned, if_neg hne] at hid
    refine hw.lists h id hid fun sp hsp => ?_
    rw [hlock] at hsp
    contradiction
  spawning sp hsp := by
    obtain rfl := some.inj hsp
    refine ⟨hclosing, by rw [idOf_spawned, if_pos rfl], fun t ht => ?_⟩
    rw [NodeTasks.spawned, lookup_put, if_pos rfl] at ht
    obtain rfl := some.inj ht
    exact .inl rfl

/-- The node after a call of `spawn_on` has listed its task, and before it has given back the
permit. -/
def recorded (w : NodeTasks) (sp : Spawning) : NodeTasks :=
  { w with
    registry := { w.registry with tasks := w.registry.tasks.put sp.taskId ⟨sp.address, sp.handle⟩ }
    live := w.live.modify sp.handle SpawnedTask.start
    lock := none }

/-- How `track` ends. -/
private theorem Inv.track (hw : w.Inv) (hp : w.permits.lookup sp.permit = some p)
    (t : SpawnedTask) :
    w.track sp p t = .error .duplicateTask ∨
      w.registry.tasks.lookup sp.taskId = none ∧
        w.track sp p t = .ok ((w.recorded sp).without sp.permit,
          .spawned (if t.receiver then .ok () else .error ⟨⟩)) := by
  rw [NodeTasks.track, SpawnPermit.track]
  cases hlookup : w.registry.tasks.lookup sp.taskId with
  | some task => exact .inl rfl
  | none =>
    refine .inr ⟨rfl, ?_⟩
    have hrelease := release_of_pos
      (r := { w.registry with
        tasks := w.registry.tasks.put sp.taskId ⟨sp.address, sp.handle⟩ }) (hw.pending_eq_succ hp)
    dsimp only
    rw [hrelease]
    rfl

/-- A task that is recorded keeps the invariant. -/
private theorem Inv.recorded (hw : w.Inv) (hsp : w.lock = some sp)
    (hnew : w.registry.tasks.lookup sp.taskId = none) : (w.recorded sp).Inv := by
  obtain ⟨-, hspid, -⟩ := hw.spawning sp hsp
  have hidOf : ∀ h, (w.recorded sp).idOf h = w.idOf h := by
    intro h
    simp only [idOf, NodeTasks.recorded, lookup_modify]
    split
    · rw [map_map]
      rfl
    · rfl
  refine { hw with handle := ?_, listed := ?_, lists := ?_, spawning := ?_ }
  · simp only [hidOf]
    exact hw.handle
  · intro id task hlookup
    rw [hidOf]
    rw [NodeTasks.recorded, lookup_put] at hlookup
    refine ⟨?_, fun sp' hsp' => ?_⟩
    · split at hlookup
      case isTrue heq =>
        obtain rfl := some.inj hlookup
        rw [heq]
        exact hspid
      case isFalse => exact (hw.listed id task hlookup).1
    · contradiction
  · intro h id hid _
    rw [hidOf] at hid
    rw [NodeTasks.recorded, lookup_put]
    by_cases hh : h = sp.handle
    · -- the task that is being listed
      rw [hh, hspid] at hid
      obtain rfl := some.inj hid
      exact ⟨sp.address, by rw [if_pos rfl, hh]⟩
    · obtain ⟨address, haddress⟩ := hw.lists h id hid fun sp' hsp' => by
        obtain rfl := some.inj (hsp.symm.trans hsp')
        exact Ne.symm hh
      have hne : id ≠ sp.taskId := by
        rintro rfl
        rw [hnew] at haddress
        contradiction
      exact ⟨address, by rw [if_neg hne, haddress]⟩
  · intro sp' hsp'
    contradiction

/-! ### Guards -/

/-- A guard that is dropped keeps the invariant. -/
private theorem Inv.dropGuard (hw : w.Inv) (hlock : w.lock = none) (ht : w.live.lookup h = some t) :
    Inv { w with registry := w.registry.remove t.taskId, live := w.live.erase h } := by
  have hid : w.idOf h = some t.taskId := by rw [idOf, ht, map_some]
  have hidOf : ∀ h' id, idOf { w with
      registry := w.registry.remove t.taskId, live := w.live.erase h } h' = some id ↔
      h' ≠ h ∧ w.idOf h' = some id := by
    intro h' id
    simp only [idOf, map_eq_some_iff, lookup_erase_eq_some, and_assoc, exists_and_left]
  have hfree : ∀ sp ∈ w.lock, sp.handle ≠ h := by
    rw [hlock]
    exact fun sp hsp => absurd hsp (not_mem_none sp)
  obtain ⟨address, haddress⟩ := hw.lists h t.taskId hid hfree
  refine { hw with handle := ?_, listed := ?_, lists := ?_, spawning := ?_ }
  · intro h' id hid'
    exact hw.handle h' id ((hidOf h' id).mp hid').2
  · intro id task hlookup
    obtain ⟨hne, hlookup⟩ := lookup_erase_eq_some.mp hlookup
    obtain ⟨htask, hsp⟩ := hw.listed id task hlookup
    refine ⟨(hidOf _ _).mpr ⟨fun heq => hne ?_, htask⟩, hsp⟩
    rw [heq, hid] at htask
    exact (some.inj htask).symm
  · intro h' id hid' hsp
    obtain ⟨hne, hid'⟩ := (hidOf h' id).mp hid'
    obtain ⟨address', haddress'⟩ := hw.lists h' id hid' hsp
    -- two listed tasks have two ids
    refine ⟨address', lookup_erase_eq_some.mpr ⟨fun heq => hne ?_, haddress'⟩⟩
    rw [heq, haddress] at haddress'
    exact (congrArg TrackedTask.abortHandle (some.inj haddress')).symm
  · intro sp hsp
    rw [hlock] at hsp
    contradiction

/-! ### One step -/

/-- How `reserve_spawn` ends. -/
private theorem Inv.reserveSpawn (hw : w.Inv) :
    w.reserveSpawn = .error .arcOverflow ∨
    w.registry.closing = true ∧ w.reserveSpawn = .ok (w, .permit none) ∨
    w.registry.closing = false ∧ w.permits.entries.length < 2 ^ 63 ∧
      w.reserveSpawn = .ok ({ w with
        registry := { w.registry with pendingSpawns := w.registry.pendingSpawns + 1 }
        permits := w.permits.put w.nextPermit ⟨true⟩
        nextPermit := w.nextPermit + 1 }, .permit (some w.nextPermit)) := by
  rw [NodeTasks.reserveSpawn, TaskRegistry.reserveSpawn]
  by_cases hclosing : w.registry.closing = true
  · rw [if_pos hclosing]
    exact .inr (.inl ⟨hclosing, rfl⟩)
  · have hroom : w.registry.pendingSpawns + 1 < 2 ^ 64 := by
      have := hw.room
      have := hw.pending
      omega
    rw [if_neg hclosing, if_pos hroom]
    by_cases hlen : w.permits.entries.length < 2 ^ 63
    · exact .inr (.inr ⟨Bool.eq_false_iff.mpr hclosing, hlen, if_pos hlen⟩)
    · exact .inl (if_neg hlen)

/-- A reserved permit keeps the invariant. -/
private theorem Inv.reserved (hw : w.Inv) (hlen : w.permits.entries.length < 2 ^ 63) :
    Inv { w with
      registry := { w.registry with pendingSpawns := w.registry.pendingSpawns + 1 }
      permits := w.permits.put w.nextPermit ⟨true⟩
      nextPermit := w.nextPermit + 1 } := by
  have hnew : w.permits.lookup w.nextPermit = none := by
    rw [eq_none_iff_forall_ne_some]
    exact fun p hp => (hw.permit _ p hp).2.ne rfl
  have hput : (w.permits.put w.nextPermit ⟨true⟩).entries.length =
      w.permits.entries.length + 1 := by
    rw [Roster.put, dif_pos hnew, Roster.push, List.length_append, List.length_singleton]
  refine { hw with pending := ?_, room := ?_, permit := ?_ }
  · rw [hput, hw.pending]
  · rw [hput]
    exact hlen
  · intro k p hp
    rw [lookup_put] at hp
    split at hp
    case isTrue heq =>
      obtain rfl := some.inj hp
      exact ⟨rfl, heq ▸ Nat.lt_succ_self _⟩
    case isFalse => exact (hw.permit k p hp).imp_right Nat.lt_succ_of_lt

/-- What a step does when the registry is closed: nothing new comes up. -/
structure Settles (w w' : NodeTasks) (o : Reply) : Prop where
  closing : w'.registry.closing = true
  noPermit : ∀ k, o ≠ .permit (some k)
  noSpawn : o ≠ .spawned (.ok ())
  permits : ∀ k p, w'.permits.lookup k = some p → w.permits.lookup k = some p
  live : ∀ h id, w'.idOf h = some id → w.idOf h = some id

private theorem settles_self (h : w.registry.closing = true) (hpermit : ∀ k, o ≠ .permit (some k))
    (hspawn : o ≠ .spawned (.ok ())) : Settles w w o :=
  ⟨h, hpermit, hspawn, fun _ _ => id, fun _ _ => id⟩

private theorem settles_without (h : w.registry.closing = true)
    (hpermit : ∀ k, o ≠ .permit (some k)) (hspawn : o ≠ .spawned (.ok ())) :
    Settles w (w.without k) o :=
  ⟨h, hpermit, hspawn, fun _ _ hp => (lookup_erase_eq_some.mp hp).2, fun _ _ => id⟩

/-- All that the executor does to a task: the id stays, and a task that waits does not run. -/
def KeepsWaiting (f : SpawnedTask → Option SpawnedTask) : Prop :=
  ∀ t t', f t = some t' → t'.taskId = t.taskId ∧
    (t.phase = .waiting ∨ t.phase = .ended → t'.phase = .waiting ∨ t'.phase = .ended)

private theorem keepsWaiting_poll : KeepsWaiting SpawnedTask.poll := by
  intro t t' ht
  obtain ⟨hphase, heq⟩ := ite_none_right_eq_some.mp ht
  obtain rfl := some.inj heq
  exact ⟨rfl, by simp [hphase]⟩

private theorem keepsWaiting_finish : KeepsWaiting SpawnedTask.finish := by
  intro t t' ht
  obtain ⟨-, heq⟩ := ite_none_right_eq_some.mp ht
  obtain rfl := some.inj heq
  exact ⟨rfl, fun _ => .inr rfl⟩

private theorem keepsWaiting_abort (receiverFirst : Bool) :
    KeepsWaiting (·.abort receiverFirst) := by
  intro t t' ht
  obtain ⟨-, heq⟩ := ite_none_left_eq_some.mp ht
  obtain rfl := some.inj heq
  exact ⟨rfl, fun _ => .inr rfl⟩

/-- A task that changes. -/
private theorem change_spec (hw : w.Inv) {f : SpawnedTask → Option SpawnedTask}
    (hf : KeepsWaiting f) (hc : w.change h f = some (w', o)) :
    w'.Inv ∧ (w.registry.closing = true → Settles w w' o) := by
  obtain ⟨t', ht', heq⟩ := map_eq_some_iff.mp hc
  obtain ⟨t, ht, hft⟩ := bind_eq_some_iff.mp ht'
  obtain ⟨rfl, rfl⟩ := Prod.mk.inj heq
  obtain ⟨hid, hphase⟩ := hf t t' hft
  refine ⟨hw.change ht hid hphase, fun hclosing => ⟨hclosing, ?_, ?_, fun _ _ => id, ?_⟩⟩
  · exact fun k => Reply.noConfusion
  · exact Reply.noConfusion
  · intro h' id hid'
    simp only [idOf, lookup_modify] at hid' ⊢
    split at hid'
    case isTrue heq =>
      rw [heq, ht, map_some, map_some, hid] at hid'
      rw [heq, ht, map_some, hid']
    case isFalse => exact hid'

/-- What takes the lock has waited until it was free. -/
private theorem lock_free {y : Option (Except TaskPanic (NodeTasks × Reply))}
    (h : (if w.lock.isSome then none else y) = some x) : w.lock = none ∧ y = some x := by
  obtain ⟨hlock, hy⟩ := ite_none_left_eq_some.mp h
  exact ⟨not_isSome_iff_eq_none.mp hlock, hy⟩

/-- **A step** does not count wrongly, and it keeps the invariant. -/
theorem call_spec (hw : w.Inv) (hc : w.call l = some x) :
    Ensures (fun e => e ≠ .underflow ∧ e ≠ .overflow)
      (fun r => r.1.Inv ∧ (w.registry.closing = true → Settles w r.1 r.2)) x := by
  cases l with
  | reserveSpawn =>
    obtain ⟨-, hx⟩ := lock_free hc
    obtain rfl := some.inj hx
    rcases hw.reserveSpawn with heq | ⟨hclosing, heq⟩ | ⟨hclosing, hlen, heq⟩
    · rw [heq]
      exact ⟨TaskPanic.noConfusion, TaskPanic.noConfusion⟩
    · rw [heq]
      refine ⟨hw, fun hclosing => settles_self hclosing (fun k hk => ?_) Reply.noConfusion⟩
      exact some_ne_none k (Reply.permit.inj hk).symm
    · rw [heq]
      refine ⟨hw.reserved hlen, fun hclosing' => ?_⟩
      rw [hclosing] at hclosing'
      contradiction
  | dropPermit k =>
    obtain ⟨-, hx⟩ := lock_free hc
    obtain ⟨p, hp, rfl⟩ := map_eq_some_iff.mp hx
    rw [hw.dropPermit hp]
    exact ⟨hw.without hp, fun hclosing =>
      settles_without hclosing (fun _ => Reply.noConfusion) Reply.noConfusion⟩
  | spawnOn k address =>
    obtain ⟨hlock, hx⟩ := lock_free hc
    obtain ⟨p, hp, rfl⟩ := map_eq_some_iff.mp hx
    rw [hw.spawnOn hp]
    cases hclosing : w.registry.closing with
    | true =>
      refine ⟨hw.without hp, fun _ =>
        settles_without hclosing (fun _ => Reply.noConfusion) fun heq => ?_⟩
      have := Reply.spawned.inj heq
      contradiction
    | false => exact ⟨hw.spawned hlock hclosing address, fun h => Bool.noConfusion h⟩
  | track =>
    obtain ⟨sp, hsp, hx⟩ := bind_eq_some_iff.mp hc
    obtain ⟨p, hp, hx⟩ := bind_eq_some_iff.mp hx
    obtain ⟨t, -, rfl⟩ := map_eq_some_iff.mp hx
    rcases hw.track hp t with heq | ⟨hnew, heq⟩
    · rw [heq]
      exact ⟨TaskPanic.noConfusion, TaskPanic.noConfusion⟩
    · rw [heq]
      refine ⟨(hw.recorded hsp hnew).without hp, fun hclosing => ?_⟩
      rw [(hw.spawning sp hsp).1] at hclosing
      contradiction
  | close =>
    obtain ⟨hlock, hx⟩ := lock_free hc
    obtain rfl := some.inj hx
    refine ⟨{ hw with spawning := fun sp hsp => ?_ }, fun _ =>
      ⟨rfl, fun _ => Reply.noConfusion, Reply.noConfusion, fun _ _ => id, fun _ _ => id⟩⟩
    rw [hlock] at hsp
    contradiction
  | isEmpty =>
    obtain ⟨-, hx⟩ := lock_free hc
    obtain rfl := some.inj hx
    exact ⟨hw, fun hclosing =>
      settles_self hclosing (fun _ => Reply.noConfusion) Reply.noConfusion⟩
  | poll h =>
    obtain ⟨r, hr, rfl⟩ := map_eq_some_iff.mp hc
    exact change_spec hw keepsWaiting_poll hr
  | finish h =>
    obtain ⟨r, hr, rfl⟩ := map_eq_some_iff.mp hc
    exact change_spec hw keepsWaiting_finish hr
  | abort h receiverFirst =>
    obtain ⟨r, hr, rfl⟩ := map_eq_some_iff.mp hc
    exact change_spec hw (keepsWaiting_abort receiverFirst) hr
  | dropGuard h =>
    obtain ⟨hlock, hx⟩ := lock_free hc
    obtain ⟨r, hr, rfl⟩ := map_eq_some_iff.mp hx
    obtain ⟨t, ht, rfl⟩ := map_eq_some_iff.mp hr
    obtain ⟨ht, -⟩ := filter_eq_some_iff.mp ht
    refine ⟨hw.dropGuard hlock ht, fun hclosing =>
      ⟨hclosing, fun _ => Reply.noConfusion, Reply.noConfusion, fun _ _ => id, ?_⟩⟩
    intro h' id hid
    obtain ⟨t', ht', rfl⟩ := map_eq_some_iff.mp hid
    rw [idOf, (lookup_erase_eq_some.mp ht').2, map_some]

/-! ### Every run -/

/-- What is left of a closed node is what was there when it was closed. -/
structure Winds (w w' : NodeTasks) : Prop where
  inv : w'.Inv
  closing : w'.registry.closing = true
  permits : ∀ k p, w'.permits.lookup k = some p → w.permits.lookup k = some p
  live : ∀ h id, w'.idOf h = some id → w.idOf h = some id

private theorem step_eq_some (hs : w.step l = some w') : ∃ o, w.call l = some (.ok (w', o)) := by
  rw [step] at hs
  split at hs
  case h_1 w₁ o hcall =>
    obtain rfl := some.inj hs
    exact ⟨o, hcall⟩
  case h_2 => contradiction

private theorem inv_of_runs (h : Reaches step (fun _ _ => True) new w) : w.Inv := by
  refine h.invariant inv_new ?_
  intro s l s' hs _ hstep
  obtain ⟨o, hcall⟩ := step_eq_some hstep
  exact (call_spec hs hcall).1

private theorem winds_of_runs (hw : w.Inv) (hclosing : w.registry.closing = true)
    (h : Reaches step (fun _ _ => True) w w') : Winds w w' := by
  refine h.invariant (P := Winds w) ⟨hw, hclosing, fun _ _ => id, fun _ _ => id⟩ ?_
  intro s l s' hs _ hstep
  obtain ⟨o, hcall⟩ := step_eq_some hstep
  obtain ⟨hinv, hsettles⟩ := call_spec hs.inv hcall
  have hsettles := hsettles hs.closing
  exact ⟨hinv, hsettles.closing, fun k p hp => hs.permits k p (hsettles.permits k p hp),
    fun h id hid => hs.live h id (hsettles.live h id hid)⟩

private theorem Inv.lock_eq_none (hw : w.Inv) (hclosing : w.registry.closing = true) :
    w.lock = none := by
  rw [eq_none_iff_forall_ne_some]
  intro sp hsp
  rw [(hw.spawning sp hsp).1] at hclosing
  contradiction

/-- When the registry is empty. -/
private theorem Inv.isEmpty_iff (hw : w.Inv) (hlock : w.lock = none) : w.registry.isEmpty = true ↔
    (∀ k, w.permits.lookup k = none) ∧ ∀ h, w.live.lookup h = none := by
  rw [TaskRegistry.isEmpty, Bool.and_eq_true, decide_eq_true_eq, List.isEmpty_iff, hw.pending,
    List.length_eq_zero_iff, entries_eq_nil_iff, entries_eq_nil_iff]
  refine and_congr_right fun _ => ⟨fun htasks h => ?_, fun hlive id => ?_⟩
  · rw [eq_none_iff_forall_ne_some]
    intro t ht
    obtain ⟨address, hlookup⟩ := hw.lists h t.taskId (by rw [idOf, ht, map_some])
      fun sp hsp => by rw [hlock] at hsp; contradiction
    rw [htasks] at hlookup
    contradiction
  · rw [eq_none_iff_forall_ne_some]
    intro task htask
    obtain ⟨hid, -⟩ := hw.listed id task htask
    rw [idOf, hlive] at hid
    contradiction

/-- A closed node that is empty stays empty. -/
private theorem Winds.isEmpty (h : Winds w w') (hw : w.Inv) (hclosing : w.registry.closing = true)
    (hempty : w.registry.isEmpty = true) :
    w'.registry.isEmpty = true ∧ ∀ handle, w'.live.lookup handle = none := by
  obtain ⟨hnoPermit, hnoTask⟩ := (hw.isEmpty_iff (hw.lock_eq_none hclosing)).mp hempty
  have hnoPermit' : ∀ k, w'.permits.lookup k = none := by
    intro k
    rw [eq_none_iff_forall_ne_some]
    intro p hp
    have := h.permits k p hp
    rw [hnoPermit] at this
    contradiction
  have hnoTask' : ∀ handle, w'.live.lookup handle = none := by
    intro handle
    rw [eq_none_iff_forall_ne_some]
    intro t ht
    have hid := h.live handle t.taskId (by rw [idOf, ht, map_some])
    rw [idOf, hnoTask] at hid
    contradiction
  exact ⟨(h.inv.isEmpty_iff (h.inv.lock_eq_none h.closing)).mpr ⟨hnoPermit', hnoTask'⟩, hnoTask'⟩

/-- **The registry over every run.** The count of the pending spawns is the number of the permits
that are neither used nor dropped, and it never underflows; the list has exactly the spawned tasks
whose guard has not been dropped, and no task runs that it does not have. When the registry is
closed, no permit is given out and no spawn succeeds; and when it is seen to be empty then, it stays
empty, and there is no task any more. -/
theorem tasks_exact_of_runs (h : Reaches step (fun _ _ => True) new w) :
    w.registry.pendingSpawns = w.permits.entries.length ∧
    (∀ l, w.call l ≠ some (.error .underflow) ∧ w.call l ≠ some (.error .overflow)) ∧
    (w.lock = none → ∀ id handle, (∃ address, w.registry.tasks.lookup id = some ⟨address, handle⟩) ↔
      ∃ t, w.live.lookup handle = some t ∧ t.taskId = id) ∧
    (∀ handle t, w.live.lookup handle = some t → t.phase = .running →
      ∃ address, w.registry.tasks.lookup t.taskId = some ⟨address, handle⟩) ∧
    (w.registry.closing = true → ∀ w', Reaches step (fun _ _ => True) w w' →
      w'.registry.closing = true ∧
      (∀ l w'' o, w'.call l = some (.ok (w'', o)) →
        (∀ k, o ≠ .permit (some k)) ∧ o ≠ .spawned (.ok ())) ∧
      (w.registry.isEmpty = true →
        w'.registry.isEmpty = true ∧ ∀ handle, w'.live.lookup handle = none)) := by
  have hw := inv_of_runs h
  refine ⟨hw.pending, fun l => ?_, fun hlock id handle => ?_, fun handle t ht hrun => ?_,
    fun hclosing w' hrun => ?_⟩
  · refine ⟨fun hcall => ?_, fun hcall => ?_⟩
    · exact (call_spec hw hcall).1 rfl
    · exact (call_spec hw hcall).2 rfl
  · constructor
    · rintro ⟨address, hlookup⟩
      exact map_eq_some_iff.mp (hw.listed id _ hlookup).1
    · intro ht
      refine hw.lists handle id (map_eq_some_iff.mpr ht) fun sp hsp => ?_
      rw [hlock] at hsp
      contradiction
  · -- the task that is being spawned waits
    refine hw.lists handle t.taskId (by rw [idOf, ht, map_some]) fun sp hsp heq => ?_
    rcases (hw.spawning sp hsp).2.2 t (heq ▸ ht) with hphase | hphase <;>
    · rw [hrun] at hphase
      contradiction
  · have hwinds := winds_of_runs hw hclosing hrun
    refine ⟨hwinds.closing, fun l w'' o hcall => ?_, fun hempty => ?_⟩
    · have hsettles := (call_spec hwinds.inv hcall).2 hwinds.closing
      exact ⟨hsettles.noPermit, hsettles.noSpawn⟩
    · exact hwinds.isEmpty hw hclosing hempty

/-- A task is aborted before it is listed, and the registry is closed between a reservation and the
spawn. -/
theorem tasks_exact_aborted_and_closed :
    ∃ w, Reaches step (fun _ _ => True) new w ∧ w.registry.closing = true ∧
      w.registry.isEmpty = true ∧ w.registry.nextTaskId = 1 ∧
      ∀ w', Reaches step (fun _ _ => True) w w' → w'.registry.isEmpty = true := by
  have hreach : Reaches step (fun _ _ => True) new _ := reaches_get
    [.reserveSpawn, .reserveSpawn, .spawnOn 0 ⟨0xa01#64⟩, .abort 0 true, .track, .close,
      .spawnOn 1 ⟨0xa02#64⟩, .dropGuard 0] (by decide)
  exact ⟨_, hreach, rfl, rfl, rfl, fun w' hw' =>
    (((tasks_exact_of_runs hreach).2.2.2.2 rfl w' hw').2.2 rfl).1⟩

end NodeTasks

end Mm1
