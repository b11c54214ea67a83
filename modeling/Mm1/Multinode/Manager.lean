import Mm1.Multinode.RouteConflict
import Mm1.Runtime.SysMsg

/-!
# The multinode manager

The handlers of `MultinodeManager` that read or write its routes: `SetRoute`, `Down`,
`SubscribeToRoutes` and `RegisterLocalSubnet`.

A destination that has a route and does not overlap a local subnet has a `subnet_ingress` worker.
The handler of `SetRoute` starts and stops workers by what `contains_net` tells before and after
the update, and panics if the worker table does not agree.

* `WorkersOk`: the table agrees with the routes;
* `onSetRoute_spec`: one message;
* `workers_exact_of_reaches`: every run whose destinations collide with what they overlap.
-/

namespace Mm1

open OrderedMap Transition AddressRange RouteRegistry

/-- The state of `MultinodeManager` as far as routes are concerned. -/
structure Manager where
  localSubnets : List (AddressRange × Unit)
  routeRegistry : RouteRegistry
  routeSubscribers : List (WatchRef × Address)
  routeGws : List (WatchRef × Address)
  subnetIngressWorkers : List (AddressRange × Address)
  deriving DecidableEq

/-- What the manager is answered while it handles a message. -/
structure Reply where
  /-- the worker that the supervisor starts -/
  worker : Address
  /-- the reference that `watch` gives -/
  watchRef : WatchRef
  deriving DecidableEq

/-- What ends the manager. -/
inductive ManagerPanic
  | registry (panic : Panic)
  /-- `panic!("subnet_ingress is not present: {}", destination)` -/
  | subnetIngressNotPresent (destination : NetAddress)
  /-- `panic!("duplicate subnet_ingress worker: {}", destination)` -/
  | duplicateSubnetIngress (destination : NetAddress)
  deriving DecidableEq

namespace Manager

/-- The manager as `run` builds it. -/
def init : Manager := ⟨[], .empty, [], [], []⟩

/-- `OnRequest<RegisterLocalSubnetRequest>`: a range that overlaps one of the set is not
inserted. -/
def onRegisterLocalSubnet (s : Manager) (net : NetAddress) : Manager :=
  match entry AddressRange.cmp (.ofNet net) s.localSubnets with
  | some _ => s
  | none => { s with localSubnets := insert AddressRange.cmp (.ofNet net) () s.localSubnets }

/-- `OnRequest<SubscribeToRoutesRequest>`, with the routes of the response. -/
def onSubscribeToRoutes (s : Manager) (deliverTo : Address) (reply : Reply) :
    Manager × List SetRoute :=
  ({ s with
      routeSubscribers := (reply.watchRef, deliverTo) ::
        s.routeSubscribers.filter (·.1 ≠ reply.watchRef) },
    s.routeRegistry.allRoutes.map .ofRoute)

/-- `local_subnets.contains(&destination.into())`. -/
def isLocal (s : Manager) (destination : NetAddress) : Bool :=
  (entry AddressRange.cmp (.ofNet destination) s.localSubnets).isSome

/-- Stops or starts the `subnet_ingress` worker of a destination, by whether it is local and
whether it had and has a route. -/
def updateWorkers (workers : List (AddressRange × Address)) (destination : NetAddress)
    (worker : Address) (isLocal before after : Bool) :
    Except ManagerPanic (List (AddressRange × Address)) :=
  match isLocal, before, after with
  | false, true, false =>
    match entry AddressRange.cmp (.ofNet destination) workers with
    | some _ => .ok (remove AddressRange.cmp (.ofNet destination) workers)
    | none => .error (.subnetIngressNotPresent destination)
  | false, false, true =>
    match entry AddressRange.cmp (.ofNet destination) workers with
    | none => .ok (insert AddressRange.cmp (.ofNet destination) worker workers)
    | some _ => .error (.duplicateSubnetIngress destination)
  | _, _, _ => .ok workers

/-- Watches a gateway that is not watched yet. -/
def watchGw (s : Manager) (via : Option Address) (watchRef : WatchRef) :
    List (WatchRef × Address) :=
  match via with
  | some gw =>
    if s.routeGws.any (·.2 = gw) then s.routeGws
    else (watchRef, gw) :: s.routeGws.filter (·.1 ≠ watchRef)
  | none => s.routeGws

/-- `OnMessage<SetRoute>`, with what is told to the subscribers. -/
def onSetRoute (env : Env) (s : Manager) (c : SetRoute) (reply : Reply) :
    Except ManagerPanic (Manager × List (Address × SetRoute)) := do
  let before := s.routeRegistry.containsNet env c.destination
  let (routeRegistry, answer) ← (s.routeRegistry.apply env c).mapError .registry
  match answer with
  | .error _ => return (s, [])
  | .ok _ =>
    let after := routeRegistry.containsNet env c.destination
    let workers ← updateWorkers s.subnetIngressWorkers c.destination reply.worker
      (s.isLocal c.destination) before after
    return ({ s with
      routeRegistry
      subnetIngressWorkers := workers
      routeGws := s.watchGw c.via reply.watchRef },
      s.routeSubscribers.map fun (_, subscriber) => (subscriber, c))

/-- `OnMessage<Down>`, with what the manager tells itself. -/
def onDown (s : Manager) (watchRef : WatchRef) (peer : Address) : Manager × List SetRoute :=
  let s₁ := { s with routeSubscribers := s.routeSubscribers.filter (·.1 ≠ watchRef) }
  if s.routeGws.any (·.1 = watchRef) then
    ({ s₁ with routeGws := s.routeGws.filter (·.1 ≠ watchRef) },
      (s.routeRegistry.allRoutesByGw peer).map fun (message, destination, _) =>
        ⟨message, destination, some peer, none⟩)
  else (s₁, [])

/-! ### The worker table -/

variable (env : Env) {s s' : Manager} {c : SetRoute} (reply : Reply) {N : Set NetAddress}

/-- `isLocal` finds every local subnet that a destination overlaps. -/
private theorem isLocal_iff (h : Sorted AddressRange.cmp s.localSubnets) {n : NetAddress} :
    s.isLocal n = true ↔ ∃ l ∈ s.localSubnets, AddressRange.cmp (.ofNet n) l.1 = .eq :=
  isSome_entry_iff h

/-- The range has a worker. -/
def HasWorker (workers : List (AddressRange × Address)) (q : AddressRange) : Prop :=
  ∃ w, (q, w) ∈ workers

/-- The registry has destinations of `N` only, and each of them that is not local has a worker if
and only if it has a route. -/
structure WorkersOk (N : Set NetAddress) (s : Manager) : Prop where
  apart : Apart N
  inv : s.routeRegistry.Inv
  netsIn : s.routeRegistry.NetsIn N
  sorted : Sorted AddressRange.cmp s.subnetIngressWorkers
  keysIn : KeysIn (ofNet '' N) s.subnetIngressWorkers
  worker_iff : ∀ n ∈ N, s.isLocal n = false →
    (HasWorker s.subnetIngressWorkers (.ofNet n) ↔ n ∈ s.routeRegistry.nets)

private theorem WorkersOk.containsNet_iff (h : WorkersOk N s) {n : NetAddress} :
    s.routeRegistry.containsNet env n = true ↔ n ∈ s.routeRegistry.nets :=
  RouteRegistry.containsNet_iff env h.apart h.netsIn h.inv

/-- The watches and the subscriptions have nothing to do with the workers. -/
theorem WorkersOk.congr (h : WorkersOk N s) (hlocals : s'.localSubnets = s.localSubnets)
    (hreg : s'.routeRegistry = s.routeRegistry)
    (hworkers : s'.subnetIngressWorkers = s.subnetIngressWorkers) : WorkersOk N s' where
  apart := h.apart
  inv := hreg ▸ h.inv
  netsIn := hreg ▸ h.netsIn
  sorted := hworkers ▸ h.sorted
  keysIn := hworkers ▸ h.keysIn
  worker_iff n hn hl := by
    rw [isLocal, hlocals] at hl
    rw [hworkers, hreg]
    exact h.worker_iff n hn hl

section Workers

variable {workers : List (AddressRange × Address)} {n : NetAddress} (w : Address) (hA : Apart N)
  (hsort : Sorted AddressRange.cmp workers) (hkeys : KeysIn (ofNet '' N) workers)

include hA hsort hkeys

/-- The last route to a destination is gone: its worker is stopped. -/
private theorem updateWorkers_stop (hworker : HasWorker workers (.ofNet n)) :
    ∃ workers', updateWorkers workers n w false true false = .ok workers' ∧
      Sorted AddressRange.cmp workers' ∧ KeysIn (ofNet '' N) workers' ∧
      ∀ q, HasWorker workers' q ↔ HasWorker workers q ∧ q ≠ .ofNet n := by
  obtain ⟨w₀, hw₀⟩ := hworker
  have hmem : ∀ {e}, e ∈ remove AddressRange.cmp (.ofNet n) workers ↔
      e ∈ workers ∧ e.1 ≠ .ofNet n := mem_remove hsort hkeys hA.orderOn hw₀
  have hentry : entry AddressRange.cmp (.ofNet n) workers = some (.ofNet n, w₀) :=
    (entry_eq_some_iff_mem hsort hkeys hA.orderOn (hkeys _ hw₀)).mpr ⟨hw₀, rfl⟩
  refine ⟨remove AddressRange.cmp (.ofNet n) workers, ?_, sorted_remove hsort,
    fun e he => hkeys e (hmem.mp he).1, fun q => ?_⟩
  · rw [updateWorkers, hentry]
  · simp only [HasWorker, hmem, exists_and_right]

/-- The first route to a destination: a worker is started. -/
private theorem updateWorkers_start (hn : n ∈ N) (hworker : ¬ HasWorker workers (.ofNet n)) :
    ∃ workers', updateWorkers workers n w false false true = .ok workers' ∧
      Sorted AddressRange.cmp workers' ∧ KeysIn (ofNet '' N) workers' ∧
      ∀ q, HasWorker workers' q ↔ HasWorker workers q ∨ q = .ofNet n := by
  have hS : ofNet n ∈ ofNet '' N := ⟨n, hn, rfl⟩
  have hfree : ∀ e ∈ workers, e.1 ≠ .ofNet n := by
    rintro ⟨q, w₀⟩ he rfl
    exact hworker ⟨w₀, he⟩
  have hnone := (entry_eq_none_iff (t := .scan) hsort hkeys hA.orderOn hS).mpr hfree
  refine ⟨insert AddressRange.cmp (.ofNet n) w workers, ?_,
    sorted_insert hsort hkeys hA.orderOn hS hfree, fun e he => ?_, fun q => ?_⟩
  · rw [updateWorkers, hnone]
  · rcases mem_insert.mp he with rfl | he
    · exact hS
    · exact hkeys e he
  · simp only [HasWorker, mem_insert, Prod.mk.injEq, exists_or, exists_eq_right]
    exact or_comm

/-- **Starting and stopping a worker**, when the worker was there if and only if there was a
route. -/
theorem updateWorkers_spec {isLocal before : Bool} (after : Bool) (hn : n ∈ N)
    (hbefore : isLocal = false → (HasWorker workers (.ofNet n) ↔ before = true)) :
    ∃ workers', updateWorkers workers n w isLocal before after = .ok workers' ∧
      Sorted AddressRange.cmp workers' ∧ KeysIn (ofNet '' N) workers' ∧
      (∀ q, q ≠ .ofNet n ∨ isLocal = true → (HasWorker workers' q ↔ HasWorker workers q)) ∧
      (isLocal = false → (HasWorker workers' (.ofNet n) ↔ after = true)) := by
  -- nothing is done when the destination is local or when routes were and are there, or not
  have hsame : (isLocal = false → before = after) →
      Sorted AddressRange.cmp workers ∧ KeysIn (ofNet '' N) workers ∧
      (∀ q, q ≠ .ofNet n ∨ isLocal = true → (HasWorker workers q ↔ HasWorker workers q)) ∧
      (isLocal = false → (HasWorker workers (.ofNet n) ↔ after = true)) := fun heq =>
    ⟨hsort, hkeys, fun _ _ => Iff.rfl, fun hl => heq hl ▸ hbefore hl⟩
  cases isLocal with
  | true => exact ⟨workers, rfl, hsame Bool.noConfusion⟩
  | false =>
    cases before with
    | true =>
      cases after with
      | true => exact ⟨workers, rfl, hsame fun _ => rfl⟩
      | false =>
        obtain ⟨workers', hupdate, hsort', hkeys', hiff⟩ :=
          updateWorkers_stop w hA hsort hkeys ((hbefore rfl).mpr rfl)
        refine ⟨workers', hupdate, hsort', hkeys', fun q hq => ?_, fun _ => ?_⟩
        · rw [hiff, and_iff_left (hq.resolve_right Bool.false_ne_true)]
        · simp [hiff]
    | false =>
      cases after with
      | false => exact ⟨workers, rfl, hsame fun _ => rfl⟩
      | true =>
        obtain ⟨workers', hupdate, hsort', hkeys', hiff⟩ := updateWorkers_start w hA hsort hkeys hn
          fun hworker => Bool.false_ne_true ((hbefore rfl).mp hworker)
        refine ⟨workers', hupdate, hsort', hkeys', fun q hq => ?_, fun _ => ?_⟩
        · rw [hiff, or_iff_left (hq.resolve_right Bool.false_ne_true)]
        · simp [hiff]

end Workers

/-- **One `SetRoute`** with a destination of `N`. -/
theorem onSetRoute_spec (h : WorkersOk N s) (hc : c.destination ∈ N) :
    ∃ s', onSetRoute env s c reply =
        .ok (s', s.routeSubscribers.map fun (_, subscriber) => (subscriber, c)) ∧
      WorkersOk N s' ∧ s'.routeRegistry.table = s.routeRegistry.table.set c ∧
      s'.routeSubscribers = s.routeSubscribers ∧ s'.localSubnets = s.localSubnets ∧
      s'.routeGws = s.watchGw c.via reply.watchRef ∧
      ∀ n ∈ N, s.isLocal n = true →
        (HasWorker s'.subnetIngressWorkers (.ofNet n) ↔
          HasWorker s.subnetIngressWorkers (.ofNet n)) := by
  obtain ⟨r', happly, hinv, hN, htable⟩ := apply_spec env h.apart h.netsIn h.inv hc
  -- the other destinations have the routes they had
  have hother : ∀ n, n ≠ c.destination → (n ∈ r'.nets ↔ n ∈ s.routeRegistry.nets) := by
    intro n hn
    rw [mem_nets_iff hinv h.apart hN, mem_nets_iff h.inv h.apart h.netsIn, htable]
    have hid : ∀ g m, (g, n, m) ≠ c.id := fun g m heq => hn (congrArg (·.2.1) heq)
    simp only [Table.set, Function.update_of_ne (hid _ _)]
  obtain ⟨workers', hupdate, hsort, hkeys, hrest, hafter⟩ :=
    updateWorkers_spec reply.worker h.apart h.sorted h.keysIn (r'.containsNet env c.destination) hc
      fun hl => (h.worker_iff _ hc hl).trans (h.containsNet_iff env).symm
  refine ⟨{ s with
    routeRegistry := r'
    subnetIngressWorkers := workers'
    routeGws := s.watchGw c.via reply.watchRef }, ?_, ?_, htable, rfl, rfl, rfl, ?_⟩
  · simp only [onSetRoute, happly, Except.mapError, bind, Except.bind, hupdate]
    rfl
  · refine ⟨h.apart, hinv, hN, hsort, hkeys, fun n hn hl => ?_⟩
    by_cases hnc : n = c.destination
    · subst hnc
      exact (hafter hl).trans (containsNet_iff env h.apart hN hinv)
    · have hq : ofNet n ≠ .ofNet c.destination := fun heq =>
        hnc (h.apart.ofNet_inj hn hc heq)
      exact (hrest _ (.inl hq)).trans ((h.worker_iff n hn hl).trans (hother n hnc).symm)
  · intro n hn hl
    refine hrest _ (or_iff_not_imp_left.mpr fun hq => ?_)
    rwa [← h.apart.ofNet_inj hn hc (not_not.mp hq)]

/-! ### Runs -/

/-- A `SetRoute` is handled, with what the containers decide; after a panic there is no manager any
more. -/
def step (s : Manager) (l : Env × SetRoute × Reply) : Option Manager :=
  match s.onSetRoute l.1 l.2.1 l.2.2 with
  | .ok (s', _) => some s'
  | .error _ => none

/-- The destination of the message collides with what it overlaps. -/
def Fits (s : Manager) (l : Env × SetRoute × Reply) : Prop := s.routeRegistry.Collides l.2.1

instance (s : Manager) (l : Env × SetRoute × Reply) : Decidable (Fits s l) :=
  inferInstanceAs (Decidable (RouteRegistry.Collides _ _))

/-- A manager with local subnets. -/
def withLocals (nets : List NetAddress) : Manager := nets.foldl onRegisterLocalSubnet init

/-- The workers are those of the destinations that have a route and are not local. -/
structure Exact (s : Manager) : Prop where
  locals : Sorted AddressRange.cmp s.localSubnets
  sound : s.routeRegistry.Sound
  sorted : Sorted AddressRange.cmp s.subnetIngressWorkers
  worker_iff : ∀ q, HasWorker s.subnetIngressWorkers q ↔
    ∃ n ∈ s.routeRegistry.nets, ofNet n = q ∧ s.isLocal n = false

theorem sorted_onRegisterLocalSubnet (net : NetAddress)
    (h : Sorted AddressRange.cmp s.localSubnets) :
    Sorted AddressRange.cmp (s.onRegisterLocalSubnet net).localSubnets := by
  rw [onRegisterLocalSubnet]
  split
  · exact h
  case h_2 hnone =>
    refine sorted_insert_of_apart h fun e he heq => ?_
    have hsome := isSome_entry_iff h |>.mpr ⟨e, he, heq⟩
    rw [hnone] at hsome
    contradiction

/-- A registration changes the set of local subnets only. -/
theorem onRegisterLocalSubnet_eq (s : Manager) (net : NetAddress) :
    ∃ locals, s.onRegisterLocalSubnet net = { s with localSubnets := locals } := by
  rw [onRegisterLocalSubnet]
  split
  · exact ⟨s.localSubnets, rfl⟩
  · exact ⟨_, rfl⟩

/-- A manager at its start has local subnets only. -/
theorem withLocals_eq (nets : List NetAddress) :
    ∃ locals, Sorted AddressRange.cmp locals ∧
      withLocals nets = { init with localSubnets := locals } := by
  have hrun : ∀ {s : Manager}, Sorted AddressRange.cmp s.localSubnets →
      ∃ locals, Sorted AddressRange.cmp locals ∧
        nets.foldl onRegisterLocalSubnet s = { s with localSubnets := locals } := by
    induction nets with
    | nil => exact fun {s} hs => ⟨s.localSubnets, hs, rfl⟩
    | cons net nets ih =>
      intro s hs
      obtain ⟨locals, heq⟩ := onRegisterLocalSubnet_eq s net
      have hs' := sorted_onRegisterLocalSubnet net hs
      rw [List.foldl_cons, heq]
      rw [heq] at hs'
      exact ih hs'
  exact hrun List.Pairwise.nil

theorem exact_withLocals (nets : List NetAddress) : Exact (withLocals nets) := by
  obtain ⟨locals, hlocals, heq⟩ := withLocals_eq nets
  rw [heq]
  refine ⟨hlocals, sound_empty, List.Pairwise.nil, fun q => ?_⟩
  simp [init, HasWorker, RouteRegistry.nets, RouteRegistry.empty]

/-- A manager with exact workers is fit for destinations that fit. -/
theorem Exact.workersOk (h : Exact s) (hA : Apart N) (hN : s.routeRegistry.nets ⊆ N) :
    WorkersOk N s where
  apart := hA
  inv := h.sound.inv
  netsIn := netsIn_iff.mpr hN
  sorted := h.sorted
  keysIn := by
    rintro ⟨q, w⟩ hq
    obtain ⟨n, hn, hnq, -⟩ := (h.worker_iff q).mp ⟨w, hq⟩
    exact ⟨n, hN hn, hnq⟩
  worker_iff n hn hl := by
    rw [h.worker_iff]
    constructor
    · rintro ⟨n', hn', heq, -⟩
      rwa [← hA.ofNet_inj (hN hn') hn heq]
    · exact fun hmem => ⟨n, hmem, rfl, hl⟩

/-- **One message** whose destination collides with what it overlaps. -/
theorem Exact.onSetRoute (h : Exact s) (hc : s.routeRegistry.Collides c) :
    ∃ s' told, s.onSetRoute env c reply = .ok (s', told) ∧ Exact s' := by
  rcases apply_cases env h.sound hc with ⟨net, happly⟩ | ⟨-, hA⟩
  · refine ⟨s, [], ?_, h⟩
    simp only [Manager.onSetRoute, happly, Except.mapError, bind, Except.bind]
    rfl
  · have hw := h.workersOk hA (Set.subset_insert _ _)
    obtain ⟨s', hs', hw', -, -, hlocals, -, hstale⟩ := onSetRoute_spec env reply
      hw (Set.mem_insert _ _)
    have hlocal : ∀ n, s'.isLocal n = s.isLocal n := fun n => by rw [isLocal, hlocals, isLocal]
    refine ⟨s', _, hs', ?_, ?_, hw'.sorted, fun q => ?_⟩
    · rw [hlocals]
      exact h.locals
    · exact ⟨hw'.inv, hA.mono (netsIn_iff.mp hw'.netsIn)⟩
    · constructor
      · intro hq
        obtain ⟨w, hmem⟩ := hq
        obtain ⟨n, hn, rfl⟩ := hw'.keysIn _ hmem
        cases hl : s.isLocal n with
        | false =>
          have hl' : s'.isLocal n = false := (hlocal n).trans hl
          exact ⟨n, (hw'.worker_iff n hn hl').mp ⟨w, hmem⟩, rfl, hl'⟩
        | true =>
          -- a local destination has no worker
          obtain ⟨n', hn', heq, hl'⟩ := (h.worker_iff _).mp ((hstale n hn hl).mp ⟨w, hmem⟩)
          rw [hA.ofNet_inj (Set.mem_insert_of_mem _ hn') hn heq, hl] at hl'
          contradiction
      · rintro ⟨n, hn, rfl, hl⟩
        exact (hw'.worker_iff n (netsIn_iff.mp hw'.netsIn hn) hl).mpr hn

/-- **The worker table is exact** over every run whose messages collide with what they overlap,
whatever the containers decide in each of them: the handler does not panic, and the ranges with a
worker are those of the destinations that have a route and overlap no local subnet. -/
theorem workers_exact_of_reaches (locals : List NetAddress) {s : Manager}
    (h : Reaches step Fits (withLocals locals) s) :
    (∀ q, HasWorker s.subnetIngressWorkers q ↔
      ∃ p ∈ s.routeRegistry.routeEntries, ofNet p.2.dstNet = q ∧
        ∀ l ∈ s.localSubnets, AddressRange.cmp (.ofNet p.2.dstNet) l.1 ≠ .eq) ∧
    ∀ env c reply, Fits s (env, c, reply) →
      ∃ s' told, s.onSetRoute env c reply = .ok (s', told) := by
  have hexact : Exact s := by
    refine h.invariant (exact_withLocals locals) fun {s l s'} hs hl hstep => ?_
    obtain ⟨s₁, told, hs₁, hexact⟩ := hs.onSetRoute l.1 l.2.2 hl
    rw [step, hs₁] at hstep
    exact Option.some.inj hstep ▸ hexact
  refine ⟨fun q => ?_, fun env c reply hc => ?_⟩
  · rw [hexact.worker_iff]
    have hlocal : ∀ n, s.isLocal n = false ↔
        ∀ l ∈ s.localSubnets, AddressRange.cmp (.ofNet n) l.1 ≠ .eq := fun n => by
      rw [Bool.eq_false_iff, Ne, isLocal_iff hexact.locals]
      push Not
      rfl
    simp only [hlocal]
    constructor
    · rintro ⟨n, ⟨p, hp, rfl⟩, hq, hl⟩
      exact ⟨p, hp, hq, hl⟩
    · rintro ⟨p, hp, hq, hl⟩
      exact ⟨_, ⟨p, hp, rfl⟩, hq, hl⟩
  · obtain ⟨s', told, hs', -⟩ := hexact.onSetRoute env reply hc
    exact ⟨s', told, hs'⟩

/-- One destination that is local and two that are not; one over these two is refused. -/
theorem workers_exact_of_reaches_sample :
    ∃ s, Reaches step Fits (withLocals [netF2]) s ∧
      s.routeRegistry.routeEntries.length = 3 ∧
      HasWorker s.subnetIngressWorkers (.ofNet netF1Next) ∧
      ¬ HasWorker s.subnetIngressWorkers (.ofNet netF2) := by
  have hreach : Reaches step Fits (withLocals [netF2]) _ := reaches_get
    [(plainEnv, ⟨sampleKey, netF1Inner, none, some 1⟩, ⟨⟨0xb001#64⟩, 1⟩),
      (plainEnv, ⟨sampleKey, netF1Next, none, some 2⟩, ⟨⟨0xb002#64⟩, 2⟩),
      (plainEnv, ⟨sampleKey, netF2, none, some 0⟩, ⟨⟨0xb003#64⟩, 3⟩),
      (plainEnv, ⟨sampleKey, netF1Both, none, some 3⟩, ⟨⟨0xb004#64⟩, 4⟩)] (by decide)
  have hexact := (workers_exact_of_reaches _ hreach).1
  refine ⟨_, hreach, by decide, (hexact _).mpr ?_, (hexact _).not.mpr ?_⟩
  · decide
  · decide

/-- A subnet inside of another one that has a worker, through another gateway with another
metric. -/
theorem duplicate_ingress_panics :
    ∃ s, Reaches step (fun _ _ => True) (withLocals []) s ∧
      s.onSetRoute plainEnv
        ⟨sampleKey, netF1Inner, some ⟨0xa102#64⟩, some 2⟩
        ⟨⟨0xb002#64⟩, 2⟩ =
        .error (.duplicateSubnetIngress netF1Inner) := by
  refine ⟨_, reaches_get [(plainEnv,
    ⟨sampleKey, netF1, some ⟨0xa101#64⟩, some 1⟩, ⟨⟨0xb001#64⟩, 1⟩)]
    (by decide), ?_⟩
  decide

end Manager

end Mm1
