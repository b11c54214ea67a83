import Mm1.Common.Basic
import Mm1.Lib.Lease
import Mm1.Lib.Transition

/-!
# The name server

The name server maps names to addresses. A name is registered by one address exclusively, or is
shared by several, and each registration has an end. A registration whose time is over stays in the
state until somebody comes upon it: `register` sweeps the whole state first, and `resolve` evicts
what it finds. A lease that is held (`Lease.live`) is what the state is about.

* `State.view`: the leases of a name at a time;
* `view_sweepExpired`, `view_register`, `view_unregister`, `handleResolve_spec`: what each operation
  does to them;
* `NoEmptyShared`: no shared name is left without registrations;
* `Directory`: what the server is for, a map from each name to how it is held;
* `server_refines_directory`: every run of the server keeps the directory, and answers from it.
-/

namespace Mm1

open Option List Function Roster Transition

/-- `Instant::checked_add`, where `latest` is the last point of time that can be represented. -/
def Instant.checkedAdd (latest now : Instant) (duration : Duration) : Option Instant :=
  if now + duration ≤ latest then some (now + duration) else none

/-- `RegisterErrorKind` -/
inductive RegisterErrorKind where
  | conflict
  | internal
  deriving DecidableEq

/-- `UnregisterErrorKind` -/
inductive UnregisterErrorKind where
  | notFound
  | internal
  deriving DecidableEq

namespace NameServer

/-- `Registration` -/
structure Registration where
  validThru : Instant

/-- `Name` -/
inductive Name where
  | exclusive (address : Address) (registration : Registration)
  | shared (registrations : Roster Address Registration)

/-- `State` -/
structure State where
  names : Roster String Name

namespace State

/-- `State::default` -/
def empty : State := ⟨.empty⟩

/-- `State::resolve` -/
def resolve (s : State) (key : String) : List (Address × Instant) :=
  match s.names.lookup key with
  | none => []
  | some (.exclusive address registration) => [(address, registration.validThru)]
  | some (.shared entries) => entries.entries.map fun e => (e.1, e.2.validThru)

end State

/-- What `sweep_expired` does to a name. -/
def Name.sweepExpired (now : Instant) : Name → Option Name
  | .exclusive address registration =>
    if now < registration.validThru then some (.exclusive address registration) else none
  | .shared registrations =>
    let registrations := registrations.retain fun r => now < r.validThru
    if registrations.entries = [] then none else some (.shared registrations)

namespace State

/-- `State::sweep_expired` -/
def sweepExpired (s : State) (now : Instant) : State := ⟨s.names.filterMap (Name.sweepExpired now)⟩

/-- `State::register`, at this time. -/
def register (s : State) (now : Instant) (key : String) (address : Address) (exclusive : Bool)
    (validThru : Instant) : State × Except RegisterErrorKind Unit :=
  let s := s.sweepExpired now
  let registration : Registration := ⟨validThru⟩
  match exclusive, s.names.lookup key with
  | true, none => (⟨s.names.put key (.exclusive address registration)⟩, .ok ())
  | false, none => (⟨s.names.put key (.shared (Roster.empty.put address registration))⟩, .ok ())
  | true, some (.exclusive existingAddress _) =>
    if existingAddress = address then
      (⟨s.names.put key (.exclusive existingAddress registration)⟩, .ok ())
    else (s, .error .conflict)
  | true, some (.shared _) => (s, .error .conflict)
  | false, some (.exclusive _ _) => (s, .error .conflict)
  | false, some (.shared registrations) =>
    (⟨s.names.put key (.shared (registrations.put address registration))⟩, .ok ())

/-- `State::unregister` -/
def unregister (s : State) (key : String) (address : Address) :
    State × Except UnregisterErrorKind Unit :=
  match s.names.lookup key with
  | none => (s, .error .notFound)
  | some (.exclusive existingAddress _) =>
    if existingAddress = address then (⟨s.names.erase key⟩, .ok ()) else (s, .error .notFound)
  | some (.shared registrations) =>
    let registrations := registrations.erase address
    if registrations.entries = [] then (⟨s.names.erase key⟩, .ok ())
    else (⟨s.names.put key (.shared registrations)⟩, .ok ())

/-- The handler of a `ResolveRequest`: what is over is evicted, and the rest is returned. -/
def handleResolve (s : State) (key : String) (now : Instant) :
    State × List (Address × Duration) :=
  let items := (s.resolve key).map fun (a, i) => (a, i - now)
  let (toEvict, toReturn) := items.partition fun (_, d) => d = 0
  (toEvict.foldl (fun s (address, _) => (s.unregister key address).1) s, toReturn)

end State

/-! ### The server -/

/-- A request to the name server. -/
inductive Request where
  | register (key : String) (addr : Address) (exclusive : Bool) (ttl : Duration)
  | unregister (key : String) (addr : Address)
  | resolve (key : String)

/-- What the name server replies. -/
inductive Response where
  | register (response : Except (ErrorOf RegisterErrorKind) Unit)
  | unregister (response : Except (ErrorOf UnregisterErrorKind) Unit)
  | resolve (items : List (Address × Duration))

/-- The clock as it is read while a request is handled: first, again if the end of a registration
is too far away, and when the state is swept. -/
structure Readings where
  first : Instant
  second : Instant
  third : Instant
  deriving DecidableEq

/-- Until when a registration is valid. -/
def validThru (latest : Instant) (ttl : Duration) (t : Readings) : Instant :=
  (Instant.checkedAdd latest t.first ttl).getD t.second

/-- Handle a request. -/
def handle (latest : Instant) (s : State) (t : Readings) : Request → State × Response
  | .register key addr exclusive ttl =>
    let (s, response) := s.register t.third key addr exclusive (validThru latest ttl t)
    (s, .register (response.mapError fun kind => ⟨kind, "registration error"⟩))
  | .unregister key addr =>
    let (s, response) := s.unregister key addr
    (s, .unregister (response.mapError fun kind => ⟨kind, "unregistration error"⟩))
  | .resolve key =>
    let (s, items) := s.handleResolve key t.first
    (s, .resolve items)

/-- The server, and the clock when it was read last. -/
structure Server where
  state : State
  clock : Instant

/-- The server at the beginning. -/
def Server.init (clock : Instant) : Server := ⟨.empty, clock⟩

/-- The clock does not go back. -/
def Server.InOrder (s : Server) (t : Readings) : Prop :=
  s.clock ≤ t.first ∧ t.first ≤ t.second ∧ t.second ≤ t.third

instance (s : Server) (t : Readings) : Decidable (s.InOrder t) :=
  inferInstanceAs (Decidable (_ ∧ _ ∧ _))

/-- Handle a request. -/
def Server.step (latest : Instant) (s : Server) (l : Request × Readings) : Option Server :=
  some ⟨(handle latest s.state l.2 l.1).1, l.2.third⟩

/-! ### The leases of a name -/

/-- How a name is held, and by whom until when. -/
def Name.holding : Name → Lease.Holding Address Instant
  | .exclusive address registration =>
    ⟨true, fun a => if a = address then some registration.validThru else none⟩
  | .shared registrations => ⟨false, fun a => (registrations.lookup a).map Registration.validThru⟩

/-- How a name is held, as far as the state knows. -/
def State.holding (s : State) (key : String) : Option (Lease.Holding Address Instant) :=
  (s.names.lookup key).map Name.holding

/-- How a name is held at a time. -/
noncomputable def State.view (s : State) (now : Instant) (key : String) :
    Option (Lease.Holding Address Instant) :=
  Lease.live now (s.holding key)

open Lease

variable {s : State} {now now' : Instant} {key key' : String} {a : Address}
  {names : Roster String Name} {registrations : Roster Address Registration} {latest : Instant}
  {name : Name} {i : Instant}

/-- When a shared name is held. -/
private theorem isHeld_shared_iff :
    (Name.shared registrations).holding.IsHeld ↔ registrations.entries ≠ [] := by
  constructor
  · rintro ⟨a, ha⟩ hnil
    have hnone : registrations.lookup a = none := by
      rw [Roster.lookup_eq_none_iff, hnil]
      exact not_mem_nil
    simp [Name.holding, hnone] at ha
  · intro hne
    obtain ⟨e, he⟩ := exists_mem_of_ne_nil _ hne
    have hlook : registrations.lookup e.1 = some e.2 := Roster.lookup_eq_some_iff.mpr he
    exact ⟨e.1, by simp [Name.holding, hlook]⟩

private theorem isHeld_exclusive {registration : Registration} :
    (Name.exclusive a registration).holding.IsHeld :=
  ⟨a, by simp [Name.holding]⟩

/-- A shared name that is left without registrations is free. -/
private theorem keep_holding_shared (registrations : Roster Address Registration) :
    (if registrations.entries = [] then none else some (Name.shared registrations)).map
      Name.holding = keep (Name.shared registrations).holding := by
  rw [keep]
  by_cases hnil : registrations.entries = []
  · rw [if_pos hnil, if_neg (fun h => isHeld_shared_iff.mp h hnil)]
    rfl
  · rw [if_neg hnil, if_pos (isHeld_shared_iff.mpr hnil)]
    rfl

/-! ### Sweeping -/

/-- The sweep of a shared name. -/
private theorem holding_retain (registrations : Roster Address Registration) :
    (Name.shared (registrations.retain fun r => now < r.validThru)).holding =
      (Name.shared registrations).holding.since now := by
  refine Holding.ext rfl (funext fun a => ?_)
  simp only [Name.holding, Holding.since, lookup_retain]
  cases registrations.lookup a with
  | none => rfl
  | some r => by_cases h : now < r.validThru <;> simp [h, filter_some]

/-- The sweep is `since` for the abstract name. -/
private theorem sweepExpired_holding (name : Name) :
    (name.sweepExpired now).map Name.holding = keep (name.holding.since now) := by
  cases name with
  | exclusive address registration =>
    rw [Name.sweepExpired]
    split
    case isTrue h =>
      have hsame : (Name.exclusive address registration).holding.since now =
          (Name.exclusive address registration).holding := by
        refine Holding.ext rfl (funext fun a => ?_)
        by_cases ha : a = address <;> simp [Name.holding, Holding.since, ha, h]
      rw [hsame, keep, if_pos isHeld_exclusive, map_some]
    case isFalse h =>
      have hfree : ¬ ((Name.exclusive address registration).holding.since now).IsHeld := by
        rintro ⟨a, ha⟩
        by_cases hne : a = address <;> simp [Name.holding, Holding.since, hne, h] at ha
      rw [keep, if_neg hfree, map_none]
  | shared registrations =>
    rw [Name.sweepExpired, ← holding_retain]
    exact keep_holding_shared _

/-- **What is swept** is what is not held. -/
theorem holding_sweepExpired : (s.sweepExpired now).holding key = s.view now key := by
  rw [State.holding, State.sweepExpired, lookup_filterMap, State.view, State.holding]
  cases s.names.lookup key with
  | none => rfl
  | some name => exact sweepExpired_holding name

private theorem view_sweepExpired (h : now ≤ now') :
    (s.sweepExpired now).view now' key = s.view now' key := by
  rw [State.view, holding_sweepExpired, State.view, live_live _ h, State.view]

/-! ### Registering -/

private theorem holding_put :
    State.holding ⟨names.put key name⟩ key' =
      if key' = key then some name.holding else State.holding ⟨names⟩ key' := by
  rw [State.holding, lookup_put]
  split <;> rfl

private theorem holding_erase :
    State.holding ⟨names.erase key⟩ key' =
      if key' = key then none else State.holding ⟨names⟩ key' := by
  have hlook : (names.erase key).lookup key' = if key' = key then none else names.lookup key' := by
    ext name
    rw [lookup_erase_eq_some]
    split <;> simp_all
  rw [State.holding, hlook]
  split <;> rfl

/-- Another registration of a shared name. -/
private theorem holding_shared_put (registrations : Roster Address Registration)
    (r : Registration) :
    (Name.shared (registrations.put a r)).holding =
      { (Name.shared registrations).holding with
        holders := update (Name.shared registrations).holding.holders a (some r.validThru) } := by
  refine Holding.ext rfl (funext fun b => ?_)
  simp only [Name.holding, lookup_put, update_apply]
  split <;> rfl

/-- The first registration of a shared name. -/
private theorem holding_shared_single (v : Instant) :
    (Name.shared (Roster.empty.put a ⟨v⟩)).holding =
      ⟨false, fun b => if b = a then some v else none⟩ := by
  refine (holding_shared_put _ _).trans (Holding.ext rfl (funext fun b => ?_))
  simp only [Name.holding, lookup_empty, update_apply]
  rfl

/-- An exclusive name is extended by the one who has it, and refused to all others. -/
private theorem acquire_exclusive (existing : Address) (r : Registration) (v : Instant) :
    acquire a true v (some (Name.exclusive existing r).holding) =
      if existing = a then some (Name.exclusive a ⟨v⟩).holding else none := by
  rw [acquire]
  by_cases ha : existing = a
  · subst ha
    have hsome : ((Name.exclusive existing r).holding.holders existing).isSome = true := by
      simp [Name.holding]
    rw [if_pos ⟨rfl, fun _ => hsome⟩, if_pos rfl]
    refine congrArg some (Holding.ext rfl (funext fun b => ?_))
    simp only [Name.holding, update_apply]
    split <;> rfl
  · have hnone : (Name.exclusive existing r).holding.holders a = none := by
      simp [Name.holding, Ne.symm ha]
    rw [if_neg ha, if_neg]
    rintro ⟨-, hsome⟩
    simp [hnone] at hsome

/-- **A registration** as a lease, in a state that is swept. -/
theorem holding_register (s : State) (now : Instant) (key : String) (a : Address) (v : Instant)
    (exclusive : Bool) :
    (∃ h, acquire a exclusive v (s.view now key) = some h ∧
        (s.register now key a exclusive v).2 = .ok () ∧
        ∀ key', (s.register now key a exclusive v).1.holding key' =
          if key' = key then some h else s.view now key') ∨
      acquire a exclusive v (s.view now key) = none ∧
        s.register now key a exclusive v = (s.sweepExpired now, .error .conflict) := by
  have hput : ∀ (name : Name) key', State.holding ⟨(s.sweepExpired now).names.put key name⟩ key' =
      if key' = key then some name.holding else s.view now key' := by
    intro name key'
    rw [holding_put]
    split
    case isTrue => rfl
    case isFalse => exact holding_sweepExpired
  -- the state is swept first, so that what is there is held
  rw [← holding_sweepExpired, State.holding, State.register.eq_def]
  dsimp only
  cases hlook : (s.sweepExpired now).names.lookup key with
  | none =>
    left
    cases exclusive with
    | true => exact ⟨_, rfl, rfl, hput _⟩
    | false =>
      refine ⟨_, rfl, rfl, fun key' => (hput _ key').trans ?_⟩
      rw [holding_shared_single]
  | some name =>
    cases name with
    | exclusive existing r =>
      cases exclusive with
      | true =>
        dsimp only
        by_cases ha : existing = a
        · left
          subst ha
          refine ⟨_, (acquire_exclusive ..).trans (if_pos rfl), by rw [if_pos rfl], fun key' => ?_⟩
          rw [if_pos rfl]
          exact hput _ key'
        · exact .inr ⟨(acquire_exclusive ..).trans (if_neg ha), by rw [if_neg ha]⟩
      | false => exact .inr ⟨rfl, rfl⟩
    | shared registrations =>
      cases exclusive with
      | true => exact .inr ⟨rfl, rfl⟩
      | false =>
        left
        refine ⟨_, rfl, rfl, fun key' => (hput _ key').trans ?_⟩
        rw [holding_shared_put]

/-- **What a registration does** to the leases: a name that is held by others is refused and stays
as it is. -/
theorem view_register (v : Instant) (exclusive : Bool) (key' : String) :
    (s.register now key a exclusive v).1.view now key' =
      if key' = key then
        (acquire a exclusive v (s.view now key)).elim (s.view now key) fun h => live now (some h)
      else s.view now key' := by
  rcases holding_register s now key a v exclusive with
    ⟨h, hacq, -, hhold⟩ | ⟨hacq, hreg⟩
  · rw [hacq, State.view, hhold key']
    split
    case isTrue => rfl
    case isFalse => exact live_live _ le_rfl
  · rw [hacq, hreg, view_sweepExpired le_rfl]
    split
    case isTrue hkey => rw [hkey]; rfl
    case isFalse => rfl

/-! ### Unregistering -/

/-- One registration is removed. -/
private theorem holding_shared_erase (registrations : Roster Address Registration) :
    (Name.shared (registrations.erase a)).holding =
      (Name.shared registrations).holding.without a := by
  refine Holding.ext rfl (funext fun b => ?_)
  have hlook : (registrations.erase a).lookup b =
      if b = a then none else registrations.lookup b := by
    ext r
    rw [lookup_erase_eq_some]
    split <;> simp_all
  simp only [Name.holding, Holding.without, hlook, update_apply]
  split <;> rfl

/-- **The end of a registration** as a lease that is released. -/
theorem holding_unregister :
    (s.unregister key a).1.holding key' =
      if key' = key then release a (s.holding key) else s.holding key' := by
  rw [State.unregister]
  cases hlook : s.names.lookup key with
  | none =>
    have hnone : s.holding key = none := by rw [State.holding, hlook]; rfl
    dsimp only
    split
    case isTrue hkey => rw [hkey, hnone]; rfl
    case isFalse => rfl
  | some name =>
    have hsome : s.holding key = some name.holding := by rw [State.holding, hlook]; rfl
    rw [hsome]
    cases name with
    | exclusive existing r =>
      dsimp only
      by_cases ha : existing = a
      · subst ha
        have hfree : ¬ ((Name.exclusive existing r).holding.without existing).IsHeld := by
          rintro ⟨b, hb⟩
          by_cases hba : b = existing <;>
            simp [Name.holding, Holding.without, hba] at hb
        rw [if_pos rfl, holding_erase, release, bind_some, keep, if_neg hfree]
      · have hnone : (Name.exclusive existing r).holding.holders a = none := by
          simp [Name.holding, Ne.symm ha]
        rw [if_neg ha, release, bind_some, Holding.without_eq_self hnone, keep,
          if_pos isHeld_exclusive]
        split
        case isTrue hkey => rw [hkey, hsome]
        case isFalse => rfl
    | shared registrations =>
      dsimp only
      rw [release, bind_some, ← holding_shared_erase, ← keep_holding_shared]
      by_cases hnil : (registrations.erase a).entries = []
      · rw [if_pos hnil, if_pos hnil, holding_erase, map_none]
      · rw [if_neg hnil, if_neg hnil, holding_put, map_some]

/-- **What the end of a registration does** to the leases. -/
theorem view_unregister :
    (s.unregister key a).1.view now key' =
      if key' = key then release a (s.view now key) else s.view now key' := by
  rw [State.view, holding_unregister]
  split
  case isTrue => exact live_release _
  case isFalse => rfl

/-! ### Resolving -/

/-- Who is found under a name. -/
private theorem mem_resolve_iff : (a, i) ∈ s.resolve key ↔ holder (s.holding key) a = some i := by
  rw [State.resolve, State.holding]
  cases s.names.lookup key with
  | none => simp [holder]
  | some name =>
    cases name with
    | exclusive address r =>
      simp only [List.mem_singleton, Prod.mk.injEq, holder, Name.holding, map_some, bind_some]
      by_cases ha : a = address <;> simp [ha, eq_comm]
    | shared registrations =>
      simp only [List.mem_map, Prod.mk.injEq, Prod.exists, holder, Name.holding, map_some,
        bind_some, map_eq_some_iff, Roster.lookup_eq_some_iff]
      constructor
      · rintro ⟨b, r, hmem, rfl, rfl⟩
        exact ⟨r, hmem, rfl⟩
      · rintro ⟨r, hmem, rfl⟩
        exact ⟨a, r, hmem, rfl, rfl⟩

/-- Each address is found once. -/
private theorem nodup_resolve : ((s.resolve key).map Prod.fst).Nodup := by
  rw [State.resolve]
  split
  case h_1 => exact List.nodup_nil
  case h_2 => exact List.nodup_singleton _
  case h_3 registrations _ =>
    rw [List.map_map]
    exact registrations.nodup

/-- The evictions of a `ResolveRequest`: registrations whose time is over. -/
private theorem view_evict (evicted : List (Address × Duration))
    (h : ∀ x ∈ evicted, holder (s.view now key) x.1 = none) :
    (evicted.foldl (fun s x => (s.unregister key x.1).1) s).view now key' = s.view now key' := by
  induction evicted generalizing s with
  | nil => rfl
  | cons x rest ih =>
    obtain ⟨hx, hrest⟩ := forall_mem_cons.mp h
    have hsame : ∀ key', (s.unregister key x.1).1.view now key' = s.view now key' := by
      intro key'
      rw [view_unregister]
      split
      case isTrue hkey => rw [hkey]; exact release_live_of_holder_eq_none hx
      case isFalse => rfl
    rw [foldl_cons, ih fun y hy => ?_, hsame]
    rw [hsame key]
    exact hrest y hy

private theorem holder_view_iff :
    holder (s.view now key) a = some i ↔ (a, i) ∈ s.resolve key ∧ now < i := by
  rw [mem_resolve_iff, State.view, holder_live, filter_eq_some_iff, decide_eq_true_eq]

/-- The remaining time of each registration that is found. -/
def State.remaining (s : State) (key : String) (now : Instant) : List (Address × Duration) :=
  (s.resolve key).map fun x => (x.1, x.2 - now)

private theorem mem_remaining_iff {d : Duration} :
    (a, d) ∈ s.remaining key now ↔ ∃ i, (a, i) ∈ s.resolve key ∧ d = i - now := by
  simp only [State.remaining, List.mem_map, Prod.mk.injEq, Prod.exists]
  constructor
  · rintro ⟨b, i, hmem, rfl, rfl⟩
    exact ⟨i, hmem, rfl⟩
  · rintro ⟨i, hmem, rfl⟩
    exact ⟨a, i, hmem, rfl, rfl⟩

/-- `resolve` drops what has no time left. -/
private theorem handleResolve_eq :
    s.handleResolve key now =
      (((s.remaining key now).filter fun x => x.2 = 0).foldl
          (fun s x => (s.unregister key x.1).1) s,
        (s.remaining key now).filter fun x => ¬ x.2 = 0) := by
  simp only [State.handleResolve, partition_eq_filter_filter, State.remaining, comp_def, decide_not]

/-- **What a `ResolveRequest` returns**, and that it leaves the leases as they are. -/
theorem handleResolve_spec :
    ((s.handleResolve key now).2.map Prod.fst).Nodup ∧
      (∀ a d, (a, d) ∈ (s.handleResolve key now).2 ↔
        ∃ i, holder (s.view now key) a = some i ∧ d = i - now) ∧
      ∀ key', (s.handleResolve key now).1.view now key' = s.view now key' := by
  have hfst : (s.remaining key now).map Prod.fst = (s.resolve key).map Prod.fst := by
    rw [State.remaining, List.map_map]
    rfl
  rw [handleResolve_eq]
  refine ⟨?_, fun a d => ?_, fun key' => view_evict _ fun x hx => ?_⟩
  · have hnodup : ((s.remaining key now).map Prod.fst).Nodup := hfst ▸ nodup_resolve
    exact hnodup.sublist (List.filter_sublist.map Prod.fst)
  · simp only [List.mem_filter, mem_remaining_iff, decide_eq_true_eq, holder_view_iff]
    constructor
    · rintro ⟨⟨i, hmem, rfl⟩, hd⟩
      exact ⟨i, ⟨hmem, Nat.sub_ne_zero_iff_lt.mp hd⟩, rfl⟩
    · rintro ⟨i, ⟨hmem, hlt⟩, rfl⟩
      exact ⟨⟨i, hmem, rfl⟩, Nat.sub_ne_zero_iff_lt.mpr hlt⟩
  · -- nothing that is evicted is held
    obtain ⟨hmem, hzero⟩ := List.mem_filter.mp hx
    obtain ⟨i, hi, hd⟩ := mem_remaining_iff.mp hmem
    have hle : i ≤ now := Nat.sub_eq_zero_iff_le.mp (hd ▸ of_decide_eq_true hzero)
    rw [State.view, holder_live, mem_resolve_iff.mp hi, filter_some, if_neg]
    simpa using hle

/-! ### Shared names -/

/-- No shared name is without registrations. -/
def State.NoEmptyShared (s : State) : Prop :=
  ∀ key registrations, s.names.lookup key = some (.shared registrations) →
    registrations.entries ≠ []

private theorem noEmptyShared_empty : State.empty.NoEmptyShared := by
  intro key registrations h
  simp [State.empty] at h

private theorem put_entries_ne_nil {r : Registration} : (registrations.put a r).entries ≠ [] := by
  intro hnil
  have hlook : (registrations.put a r).lookup a = some r := by rw [Roster.lookup_put, if_pos rfl]
  rw [Roster.lookup_eq_some_iff, hnil] at hlook
  exact not_mem_nil hlook

/-- The sweep leaves no name empty. -/
private theorem noEmptyShared_sweepExpired : (s.sweepExpired now).NoEmptyShared := by
  intro key registrations h
  rw [State.sweepExpired, lookup_filterMap, bind_eq_some_iff] at h
  obtain ⟨name, -, hname⟩ := h
  cases name with
  | exclusive address r =>
    rw [Name.sweepExpired] at hname
    split at hname <;> simp at hname
  | shared registrations' =>
    rw [Name.sweepExpired] at hname
    split at hname
    case isTrue => contradiction
    case isFalse hne =>
      obtain rfl := Name.shared.inj (some.inj hname)
      exact hne

private theorem State.NoEmptyShared.put (h : State.NoEmptyShared ⟨names⟩)
    (hname : ∀ registrations, name = .shared registrations → registrations.entries ≠ []) :
    State.NoEmptyShared ⟨names.put key name⟩ := by
  intro key' registrations hlook
  rw [lookup_put] at hlook
  split at hlook
  case isTrue => exact hname registrations (some.inj hlook)
  case isFalse => exact h key' registrations hlook

private theorem State.NoEmptyShared.erase (h : State.NoEmptyShared ⟨names⟩) :
    State.NoEmptyShared ⟨names.erase key⟩ := by
  intro key' registrations hlook
  exact h key' registrations (lookup_erase_eq_some.mp hlook).2

/-- A registration leaves no name empty. -/
private theorem noEmptyShared_register (v : Instant) (exclusive : Bool) :
    (s.register now key a exclusive v).1.NoEmptyShared := by
  have hswept : (s.sweepExpired now).NoEmptyShared := noEmptyShared_sweepExpired
  rw [State.register.eq_def]
  dsimp only
  split
  case h_1 => exact hswept.put (by simp)
  case h_2 =>
    refine hswept.put fun registrations h => ?_
    obtain rfl := Name.shared.inj h
    exact put_entries_ne_nil
  case h_3 =>
    split
    · exact hswept.put (by simp)
    · exact hswept
  case h_4 => exact hswept
  case h_5 => exact hswept
  case h_6 =>
    refine hswept.put fun registrations h => ?_
    obtain rfl := Name.shared.inj h
    exact put_entries_ne_nil

/-- An empty name is removed. -/
private theorem State.NoEmptyShared.unregister (h : s.NoEmptyShared) :
    (s.unregister key a).1.NoEmptyShared := by
  rw [State.unregister]
  split
  case h_1 => exact h
  case h_2 =>
    split
    · exact h.erase
    · exact h
  case h_3 =>
    dsimp only
    split
    · exact h.erase
    case isFalse hne =>
      refine h.put fun registrations heq => ?_
      obtain rfl := Name.shared.inj heq
      exact hne

private theorem State.NoEmptyShared.handleResolve (h : s.NoEmptyShared) :
    (s.handleResolve key now).1.NoEmptyShared := by
  rw [handleResolve_eq]
  generalize (s.remaining key now).filter (fun x => x.2 = 0) = evicted
  induction evicted generalizing s with
  | nil => exact h
  | cons x rest ih => exact ih h.unregister

/-! ### The directory -/

/-- What the name server is for: how each name is held. -/
abbrev Directory := String → Option (Holding Address Instant)

/-- The directory at a later time. -/
noncomputable def Directory.since (d : Directory) (now : Instant) : Directory :=
  fun key => live now (d key)

/-- The directory after a request: a name that is held by others is refused. -/
noncomputable def Directory.after (latest : Instant) (d : Directory) (l : Request × Readings) :
    Directory :=
  let d := d.since l.2.third
  match l.1 with
  | .register key addr exclusive ttl => fun key' =>
    if key' = key then
      (acquire addr exclusive (validThru latest ttl l.2) (d key)).elim (d key) fun h =>
        live l.2.third (some h)
    else d key'
  | .unregister key addr => fun key' => if key' = key then release addr (d key) else d key'
  | .resolve _ => d

/-- What a `ResolveRequest` at this time is answered: who holds the name, each of them once and with
the time it has left. A name that is held exclusively has one holder. -/
def Directory.Resolves (d : Directory) (key : String) (now : Instant) (r : Response) : Prop :=
  ∃ items, r = .resolve items ∧ (items.map Prod.fst).Nodup ∧
    (∀ a left, (a, left) ∈ items ↔ ∃ i, holder (d key) a = some i ∧ left = i - now) ∧
    ∀ h a, d key = some h → h.exclusive = true → (h.holders a).isSome = true →
      items.map Prod.fst = [a]

/-- Nobody holds the name, or those who do share it and it is asked for as shared, or the one who
holds it exclusively is the one who asks. -/
def Directory.Admits (d : Directory) (key : String) (a : Address) (exclusive : Bool) : Prop :=
  ∀ h, d key = some h →
    h.exclusive = exclusive ∧ (exclusive = true → (h.holders a).isSome = true)

/-- The directory that the server keeps. -/
noncomputable def Server.directory (s : Server) : Directory := s.state.view s.clock

theorem acquire_eq_none_iff {d : Directory} {exclusive : Bool} {v : Instant} :
    acquire a exclusive v (d key) = none ↔ ¬ d.Admits key a exclusive := by
  rw [Directory.Admits]
  cases d key with
  | none | some h => simp [acquire]

theorem since_view (h : now ≤ now') : Directory.since (s.view now) now' = s.view now' :=
  funext fun _ => live_live _ h

/-- An exclusive name has one holder. -/
private theorem holder_unique {h : Holding Address Instant} {b : Address}
    (hview : s.view now key = some h) (hexcl : h.exclusive = true)
    (ha : (h.holders a).isSome = true) (hb : (h.holders b).isSome = true) : a = b := by
  obtain ⟨h₀, hhold, rfl⟩ := eq_since_of_live hview
  obtain ⟨name, -, rfl⟩ := map_eq_some_iff.mp hhold
  cases name with
  | shared registrations => contradiction
  | exclusive address r =>
    have hone : ∀ c, (((Name.exclusive address r).holding.since now).holders c).isSome = true →
        c = address := by
      intro c hc
      by_contra hne
      simp [Name.holding, Holding.since, hne] at hc
    rw [hone a ha, hone b hb]

/-- **What a `ResolveRequest` is answered.** -/
theorem resolves_handle (latest : Instant) (t : Readings) :
    Directory.Resolves (s.view t.first) key t.first (handle latest s t (.resolve key)).2 := by
  obtain ⟨hnodup, hitems, -⟩ := @handleResolve_spec s t.first key
  refine ⟨_, rfl, hnodup, hitems, fun h a hview hexcl ha => ?_⟩
  have hmem : ∀ b, b ∈ (s.handleResolve key t.first).2.map Prod.fst ↔ b = a := by
    intro b
    rw [List.mem_map]
    constructor
    · rintro ⟨⟨c, left⟩, hc, rfl⟩
      obtain ⟨i, hi, -⟩ := (hitems c left).mp hc
      rw [hview] at hi
      exact holder_unique hview hexcl (isSome_iff_exists.mpr ⟨i, hi⟩) ha
    · rintro rfl
      obtain ⟨i, hi⟩ := isSome_iff_exists.mp ha
      exact ⟨(b, i - t.first), (hitems b _).mpr ⟨i, by rw [hview]; exact hi, rfl⟩, rfl⟩
  have hperm : ((s.handleResolve key t.first).2.map Prod.fst).Perm [a] :=
    (List.perm_ext_iff_of_nodup hnodup (List.nodup_singleton a)).mpr fun b => by
      rw [hmem b, List.mem_singleton]
  exact List.perm_singleton.mp hperm

/-- **What a `RegisterRequest` is answered.** -/
theorem registers_handle (latest : Instant) (t : Readings) (exclusive : Bool) (ttl : Duration) :
    (Directory.Admits (s.view t.third) key a exclusive ∧
        (handle latest s t (.register key a exclusive ttl)).2 = .register (.ok ())) ∨
      ¬ Directory.Admits (s.view t.third) key a exclusive ∧
        (handle latest s t (.register key a exclusive ttl)).2 =
          .register (.error ⟨.conflict, "registration error"⟩) ∧
        (handle latest s t (.register key a exclusive ttl)).1.view t.third = s.view t.third := by
  rcases holding_register s t.third key a (validThru latest ttl t) exclusive with
    ⟨h, hacq, hok, -⟩ | ⟨hacq, hreg⟩
  · left
    have hadmits : Directory.Admits (s.view t.third) key a exclusive := by
      by_contra hnot
      rw [acquire_eq_none_iff.mpr hnot] at hacq
      contradiction
    have hanswer : (handle latest s t (.register key a exclusive ttl)).2 =
        .register ((s.register t.third key a exclusive (validThru latest ttl t)).2.mapError
          fun kind => ⟨kind, "registration error"⟩) := rfl
    exact ⟨hadmits, by rw [hanswer, hok]; rfl⟩
  · right
    refine ⟨acquire_eq_none_iff.mp hacq, by rw [handle, hreg]; rfl, funext fun key' => ?_⟩
    rw [handle, hreg]
    exact view_sweepExpired le_rfl

/-- **One request.** -/
theorem directory_step {s s' : Server} {l : Request × Readings} (hclock : s.InOrder l.2)
    (h : s.step latest l = some s') : s'.directory = s.directory.after latest l := by
  obtain rfl := some.inj h
  obtain ⟨request, t⟩ := l
  obtain ⟨h₁, h₂, h₃⟩ := hclock
  have hlast : s.clock ≤ t.third := h₁.trans (h₂.trans h₃)
  have hsince : s.directory.since t.third = s.state.view t.third := since_view hlast
  rw [Directory.after.eq_def, hsince]
  cases request with
  | register key addr exclusive ttl =>
    exact funext fun key' => view_register (validThru latest ttl t) exclusive key'
  | unregister key addr => exact funext fun key' => view_unregister
  | resolve key =>
    have hfirst : (s.state.handleResolve key t.first).1.view t.first = s.state.view t.first :=
      funext handleResolve_spec.2.2
    have hthird := congrArg (fun d => Directory.since d t.third) hfirst
    rw [since_view (h₂.trans h₃), since_view (h₂.trans h₃)] at hthird
    exact hthird

/-- No request leaves a name empty. -/
private theorem noEmptyShared_handle {t : Readings} (h : s.NoEmptyShared) (request : Request) :
    (handle latest s t request).1.NoEmptyShared := by
  cases request with
  | register key addr exclusive ttl => exact noEmptyShared_register _ exclusive
  | unregister key addr => exact h.unregister
  | resolve key => exact h.handleResolve

/-- **Every run of the name server.** It keeps the directory that its requests make, whenever they
come, and every further request is answered from that directory. -/
theorem server_refines_directory {latest start : Instant} {ls : List (Request × Readings)}
    {s : Server}
    (h : exec (Server.step latest) (fun s l => s.InOrder l.2) (.init start) ls = some s) :
    s.directory = ls.foldl (Directory.after latest) (fun _ => none) ∧
      s.state.NoEmptyShared ∧
      ∀ t, s.InOrder t →
        (∀ key, let r := handle latest s.state t (.resolve key)
          (s.directory.since t.first).Resolves key t.first r.2 ∧
            r.1.view t.first = s.directory.since t.first) ∧
        ∀ key a exclusive ttl, let r := handle latest s.state t (.register key a exclusive ttl)
          let d := s.directory.since t.third
          let refused := r.2 = .register (.error ⟨.conflict, "registration error"⟩) ∧
            r.1.view t.third = d
          (d.Admits key a exclusive ∧ r.2 = .register (.ok ()) ∨
              ¬ d.Admits key a exclusive ∧ refused) ∧
            ∀ h b, d key = some h → h.exclusive = true → (h.holders b).isSome = true →
              (a ≠ b ∨ exclusive = false) → refused := by
  have hrun := exec_refines directory_step h
  have hshared : s.state.NoEmptyShared := by
    refine (reaches_of_exec h).invariant (P := fun s => s.state.NoEmptyShared)
      noEmptyShared_empty ?_
    intro s l s' hs _ hstep
    obtain rfl := some.inj hstep
    exact noEmptyShared_handle hs l.1
  refine ⟨hrun.trans ?_, hshared, fun t ⟨h₁, h₂, h₃⟩ => ?_⟩
  · rfl
  have hlast : s.clock ≤ t.third := h₁.trans (h₂.trans h₃)
  have hfirst : s.directory.since t.first = s.state.view t.first := since_view h₁
  have hthird : s.directory.since t.third = s.state.view t.third := since_view hlast
  rw [hfirst, hthird]
  refine ⟨fun key => ⟨resolves_handle latest t, funext handleResolve_spec.2.2⟩, ?_⟩
  intro key a exclusive ttl
  have hreg := @registers_handle s.state key a latest t exclusive ttl
  refine ⟨hreg, fun h b hview hexcl hb hother => ?_⟩
  have hnot : ¬ Directory.Admits (s.state.view t.third) key a exclusive := by
    intro hadmits
    obtain ⟨hsame, hholds⟩ := hadmits h hview
    rcases hother with hne | hfalse
    · exact hne (holder_unique hview hexcl (hholds (hsame ▸ hexcl)) hb)
    · rw [hexcl, hfalse] at hsame
      contradiction
  rcases hreg with ⟨hadmits, -⟩ | ⟨-, hrefused⟩
  · exact absurd hadmits hnot
  · exact hrefused

/-- A name that is held exclusively and is asked for by another before and after its time is
over. -/
theorem server_refines_directory_expiry :
    ∃ s, exec (Server.step 100) (fun s l => s.InOrder l.2) (.init 0)
        [(.register "db" ⟨0xa1#64⟩ true 5, ⟨1, 1, 1⟩)] = some s ∧
      s.directory = [(.register "db" ⟨0xa1#64⟩ true 5, ⟨1, 1, 1⟩)].foldl (Directory.after 100)
        (fun _ => none) ∧
      (handle 100 s.state ⟨5, 5, 5⟩ (.register "db" ⟨0xa2#64⟩ false 5)).2 =
        .register (.error ⟨.conflict, "registration error"⟩) ∧
      (handle 100 s.state ⟨5, 5, 5⟩ (.resolve "db")).2 = .resolve [(⟨0xa1#64⟩, 1)] ∧
      (s.directory.since 6).Resolves "db" 6 (handle 100 s.state ⟨6, 6, 6⟩ (.resolve "db")).2 ∧
      (handle 100 s.state ⟨6, 6, 6⟩ (.register "db" ⟨0xa2#64⟩ false 5)).2 =
        .register (.ok ()) := by
  have hrun : exec (Server.step 100) (fun s l => s.InOrder l.2) (.init 0)
      [(.register "db" ⟨0xa1#64⟩ true 5, ⟨1, 1, 1⟩)] = some _ := rfl
  obtain ⟨hdirectory, -, hnext⟩ := server_refines_directory hrun
  exact ⟨_, hrun, hdirectory, rfl, rfl, ((hnext ⟨6, 6, 6⟩ (by decide)).1 "db").1, rfl⟩

end NameServer

end Mm1
