import Mm1.Multinode.Connection
import Mm1.Multinode.Manager

/-!
# The metric along a chain of nodes

A node that has a subnet of its own announces it with the metric `0`. Each node that is told of a
route stores it with a metric greater by one (`metric.map(|m| m + 1)`), and its connections
announce it further. The metric is a `u8`: with overflow checks the increment of `255` panics,
without them it is `0`.

* `ChainNode.setRoute_spec`: one node stores a route and announces it;
* `storesFrom_iff`: the nodes of a chain store `0`, `1`, `2` and so on if and only if the last of
  them is at most 255 connections away.
-/

namespace Mm1

open OrderedMap Transition Option List RouteRegistry

/-- A node of a chain, that has no route for the message yet. -/
structure ChainNode (dst : NetAddress) where
  env : Env
  /-- the key that the message has at this node -/
  message : LocalTypeKey
  /-- the gateway of the connection to the node before -/
  gwIn : Address
  /-- the gateway of the connection to the node behind -/
  gwOut : Address
  gw_ne : gwIn ≠ gwOut
  manager : Manager
  /-- the connection to the node behind -/
  subscriber : Address
  watchRef : WatchRef
  subscribed : manager.routeSubscribers.filter (·.2 = subscriber) = [(watchRef, subscriber)]
  /-- the registry of that connection -/
  registry : RouteRegistry
  reply : Reply
  nets : Set NetAddress
  dst_mem : dst ∈ nets
  workersOk : manager.WorkersOk nets
  inv : registry.Inv
  netsIn : registry.NetsIn nets
  fresh : ∀ p ∈ registry.routeEntries, p.2.message ≠ message

namespace ChainNode

variable {dst : NetAddress} {c : SetRoute} {x : RouteMetric} {r : RouteRegistry}
  {N : Set NetAddress}

/-- The manager handles a `SetRoute` and tells it to the connection, with what that announces. -/
def setRoute (node : ChainNode dst) (c : SetRoute) : Option (Manager × List SetRoute) :=
  match node.manager.onSetRoute node.env c node.reply with
  | .error _ => none
  | .ok (manager, told) =>
    match handleSetRoutes node.env node.gwOut node.registry
        ((told.filter (·.1 = node.subscriber)).map Prod.snd) with
    | .error _ => none
    | .ok (_, written) => some (manager, written)

/-- A node at which the subnet is local. -/
def announceLocal (node : ChainNode dst) : Option (Manager × List SetRoute) :=
  node.setRoute ⟨node.message, dst, none, some 0⟩

/-- The `SubnetDistance` of the node before. -/
def onSubnetDistance (overflowChecks : Bool) (node : ChainNode dst) :
    Option RouteMetric → Option (Manager × List SetRoute)
  | none => node.setRoute ⟨node.message, dst, some node.gwIn, none⟩
  | some m => do
    let metric ← RouteMetric.addOne overflowChecks m
    node.setRoute ⟨node.message, dst, some node.gwIn, some metric⟩

/-- The managers of the nodes to which a route is announced, each by the node before; without an
announcement they stay as they are. -/
def announce (overflowChecks : Bool) :
    List (ChainNode dst) → Option SetRoute → Option (List Manager)
  | [], _ => some []
  | node :: nodes, none => some ((node :: nodes).map manager)
  | node :: nodes, some c => do
    let (manager, written) ← node.onSubnetDistance overflowChecks c.metric
    let managers ← announce overflowChecks nodes written.head?
    return manager :: managers

/-- The managers of a chain whose first node has the subnet; `none` if one of them panics. -/
def announceAll (overflowChecks : Bool) (origin : ChainNode dst) (nodes : List (ChainNode dst)) :
    Option (List Manager) := do
  let (manager, written) ← origin.announceLocal
  let managers ← announce overflowChecks nodes written.head?
  return manager :: managers

/-- The manager of the node stores the route with the metric `k`. -/
def Stores (node : ChainNode dst) (via : Option Address) (manager : Manager) (k : ℕ) : Prop :=
  ∃ x : RouteMetric,
    (node.message, dst, via, x) ∈ manager.routeRegistry.allRoutes ∧ x.toNat = k

/-- The managers of the nodes store the metrics `k`, `k + 1` and so on. -/
def StoresFrom (k : ℕ) : List (ChainNode dst) → List Manager → Prop
  | [], [] => True
  | node :: nodes, manager :: managers =>
    node.Stores (some node.gwIn) manager k ∧ StoresFrom (k + 1) nodes managers
  | _, _ => False

/-! ### One node -/

/-- `find_route` finds nothing for a message without routes. -/
private theorem seenMetric_of_fresh (env : Env) {m : LocalTypeKey} (hinv : r.Inv)
    (hfresh : ∀ p ∈ r.routeEntries, p.2.message ≠ m) (a : Address) :
    r.seenMetric env m a = .ok none := by
  have hfind : r.findRoute env m a = .ok (.error .noRoute) := by
    refine findRoute_of_not_next env fun q s hnext hm => ?_
    obtain ⟨key, e, he, rfl⟩ := hinv.exists_route (mem_of_next hnext)
    exact hfresh _ he hm
  rw [RouteRegistry.seenMetric, hfind]
  rfl

/-- A route is seen from the lowest address of its destination. -/
private theorem seenMetric_of_mem (env : Env) (hA : Apart N) (hN : r.NetsIn N) (hinv : r.Inv)
    (hx : r.table c.id = some x) : ∃ y, r.seenMetric env c.message c.probe = .ok (some y) := by
  obtain ⟨key, he⟩ := (hinv.table_eq_some_iff hA hN).mp hx
  have hmem : (AddressRange.ofNet c.destination).Mem c.probe :=
    ⟨le_rfl, (AddressRange.ofNet c.destination).lo_le_hi⟩
  obtain ⟨y, s, hnext, -⟩ := exists_next_of_mem env hA hN hinv he hmem
  obtain ⟨-, e, -, -, hfind⟩ := findRoute_of_next env hinv hnext rfl
  refine ⟨e.metric, ?_⟩
  rw [RouteRegistry.seenMetric, hfind]
  rfl

/-- The first route for a message changes what `find_route` tells. -/
private theorem visible_of_fresh (env : Env) (hA : Apart N) (hN : r.NetsIn N) (hinv : r.Inv)
    (hc : c.destination ∈ N) (hfresh : ∀ p ∈ r.routeEntries, p.2.message ≠ c.message)
    (hx : c.metric = some x) : r.visible env c = true := by
  obtain ⟨r', happly, hinv', hN', htable⟩ := apply_spec env hA hN hinv hc
  have hset : r'.table c.id = some x := by rw [htable, Table.set, Function.update_self, hx]
  obtain ⟨y, hafter⟩ := seenMetric_of_mem env hA hN' hinv' hset
  simp [RouteRegistry.visible, happly, hafter, seenMetric_of_fresh env hinv hfresh]

/-- What is told to the connection to the node behind. -/
private theorem told_eq (node : ChainNode dst) (c : SetRoute) :
    ((node.manager.routeSubscribers.map fun (_, subscriber) => (subscriber, c)).filter
      (·.1 = node.subscriber)).map Prod.snd = [c] := by
  rw [List.filter_map, List.map_map]
  exact congrArg (List.map _) node.subscribed

/-- **One node** stores a route and announces it with the same metric. -/
theorem setRoute_spec (node : ChainNode dst) {via : Option Address}
    (hvia : via ≠ some node.gwOut) (x : RouteMetric) :
    ∃ manager, node.setRoute ⟨node.message, dst, via, some x⟩ =
        some (manager, [⟨node.message, dst, via, some x⟩]) ∧
      ∀ k, node.Stores via manager k ↔ x.toNat = k := by
  have hA := node.workersOk.apart
  generalize hc : SetRoute.mk node.message dst via (some x) = c
  have hdst : c.destination ∈ node.nets := hc ▸ node.dst_mem
  obtain ⟨manager, hmanager, hworkers, htable, -⟩ :=
    Manager.onSetRoute_spec node.env node.reply node.workersOk hdst
  obtain ⟨r, hr, -⟩ := handleSetRoute_spec node.env node.gwOut hA node.netsIn
    node.inv hdst
  have hvisible : node.registry.visible node.env c = true :=
    visible_of_fresh node.env hA node.netsIn node.inv hdst (hc ▸ node.fresh)
      (congrArg SetRoute.metric hc).symm
  rw [if_pos ⟨hvisible, hc ▸ hvia⟩] at hr
  refine ⟨manager, ?_, fun k => ?_⟩
  · simp only [setRoute, hmanager, told_eq, handleSetRoutes, hr, bind, Except.bind]
    rfl
  · have hx : manager.routeRegistry.table (via, dst, node.message) = some x := by
      rw [htable, ← hc]
      exact Function.update_self ..
    simp only [Stores, hworkers.inv.mem_allRoutes hA hworkers.netsIn, hx, Option.some.injEq,
      exists_eq_left']

/-! ### The chain -/

/-- The first node of a chain to which a route is announced. -/
private theorem announce_cons (overflowChecks : Bool) (node : ChainNode dst)
    (nodes : List (ChainNode dst)) {x y : RouteMetric} (hx : c.metric = some x)
    (hy : RouteMetric.addOne overflowChecks x = some y) :
    ∃ manager c', c'.metric = some y ∧
      announce overflowChecks (node :: nodes) (some c) =
        (announce overflowChecks nodes (some c')).map (manager :: ·) ∧
      ∀ k, node.Stores (some node.gwIn) manager k ↔ y.toNat = k := by
  have hvia : some node.gwIn ≠ some node.gwOut := fun heq => node.gw_ne (some.inj heq)
  obtain ⟨manager, hset, hstores⟩ := node.setRoute_spec hvia y
  refine ⟨manager, ⟨node.message, dst, some node.gwIn, some y⟩, rfl, ?_, hstores⟩
  have hhop : node.onSubnetDistance overflowChecks c.metric =
      some (manager, [⟨node.message, dst, some node.gwIn, some y⟩]) := by
    rw [hx, onSubnetDistance, hy]
    exact hset
  rw [announce, hhop]
  exact map_eq_bind.symm

/-- **A chain to which a route with a metric is announced.** -/
theorem announce_iff (overflowChecks : Bool) (nodes : List (ChainNode dst))
    (hx : c.metric = some x) :
    (∃ managers, announce overflowChecks nodes (some c) = some managers ∧
      StoresFrom (x.toNat + 1) nodes managers) ↔ x.toNat + nodes.length ≤ 255 := by
  have hlt := x.toNat_lt
  induction nodes generalizing c x with
  | nil => exact iff_of_true ⟨[], rfl, trivial⟩ (Nat.lt_succ_iff.mp hlt)
  | cons node nodes ih =>
    rw [length_cons]
    by_cases hmax : x = 255
    · -- the increment fails, or gives `0`
      refine iff_of_false ?_ (by rw [hmax]; simp)
      rintro ⟨managers, hrun, hstores⟩
      cases overflowChecks with
      | true =>
        have hnone : RouteMetric.addOne true x = none := if_pos ⟨rfl, hmax⟩
        rw [announce, hx, onSubnetDistance, hnone] at hrun
        contradiction
      | false =>
        have hzero : RouteMetric.addOne false x = some 0 := by rw [hmax]; rfl
        obtain ⟨manager, c', -, heq, hiff⟩ := announce_cons false node nodes hx hzero
        rw [heq] at hrun
        obtain ⟨rest, -, rfl⟩ := map_eq_some_iff.mp hrun
        exact Nat.succ_ne_zero _ ((hiff _).mp hstores.1).symm
    · have hsucc : RouteMetric.addOne overflowChecks x = some (x + 1) := if_neg fun h => hmax h.2
      have htoNat : (x + 1 : RouteMetric).toNat = x.toNat + 1 := by
        have hne : x.toNat ≠ 255 := fun h => hmax (UInt8.toNat_inj.mp h)
        rw [UInt8.toNat_add]
        exact Nat.mod_eq_of_lt (by simp only [UInt8.toNat_one]; omega)
      obtain ⟨manager, c', hc', heq, hiff⟩ := announce_cons overflowChecks node nodes hx hsucc
      have hih := ih hc' (x + 1 : RouteMetric).toNat_lt
      rw [htoNat] at hih hiff
      have hlen : x.toNat + (nodes.length + 1) = x.toNat + 1 + nodes.length := by omega
      rw [heq, hlen]
      refine Iff.trans ?_ hih
      constructor
      · rintro ⟨managers, hrun, hstores⟩
        obtain ⟨rest, hrest, rfl⟩ := map_eq_some_iff.mp hrun
        exact ⟨rest, hrest, hstores.2⟩
      · rintro ⟨rest, hrest, hstores⟩
        exact ⟨manager :: rest, by rw [hrest]; rfl, (hiff _).mpr rfl, hstores⟩

/-- Without overflow checks the metrics go round. -/
private theorem announce_false (nodes : List (ChainNode dst)) (hx : c.metric = some x) :
    ∃ managers, announce false nodes (some c) = some managers ∧
      ∀ i node, nodes[i]? = some node → ∃ manager, managers[i]? = some manager ∧
        ∀ k, node.Stores (some node.gwIn) manager k ↔ (x.toNat + i + 1) % 256 = k := by
  induction nodes generalizing c x with
  | nil => exact ⟨[], rfl, fun i node h => absurd h (by simp)⟩
  | cons node nodes ih =>
    have hsucc : RouteMetric.addOne false x = some (x + 1) := if_neg fun h => by simp at h
    have htoNat : (x + 1 : RouteMetric).toNat = (x.toNat + 1) % 256 := UInt8.toNat_add x 1
    obtain ⟨manager, c', hc', heq, hiff⟩ := announce_cons false node nodes hx hsucc
    obtain ⟨managers, hrun, hstores⟩ := ih hc'
    refine ⟨manager :: managers, by rw [heq, hrun]; rfl, fun i node' hi => ?_⟩
    cases i with
    | zero =>
      obtain rfl : node = node' := by simpa using hi
      refine ⟨manager, rfl, fun k => ?_⟩
      rw [hiff, htoNat, Nat.add_zero]
    | succ i =>
      obtain ⟨m, hm, hk⟩ := hstores i node' (by simpa using hi)
      refine ⟨m, by simpa using hm, fun k => ?_⟩
      rw [hk, htoNat]
      have hmod : ((x.toNat + 1) % 256 + i + 1) % 256 = (x.toNat + (i + 1) + 1) % 256 := by omega
      rw [hmod]

/-- **The metrics along a chain.** The manager of the node that has the subnet stores `0`, and
those of the nodes behind it store `1`, `2` and so on, without a panic, if and only if there are at
most 255 of them; with overflow checks or without. -/
theorem storesFrom_iff (overflowChecks : Bool) (origin : ChainNode dst)
    (nodes : List (ChainNode dst)) :
    (∃ manager managers, announceAll overflowChecks origin nodes = some (manager :: managers) ∧
      origin.Stores none manager 0 ∧ StoresFrom 1 nodes managers) ↔ nodes.length ≤ 255 := by
  obtain ⟨manager, hset, hstores⟩ := origin.setRoute_spec (some_ne_none _).symm 0
  have hrun : announceAll overflowChecks origin nodes =
      (announce overflowChecks nodes (some ⟨origin.message, dst, none, some 0⟩)).map
        (manager :: ·) := by
    rw [announceAll, announceLocal, hset]
    exact map_eq_bind.symm
  have hiff := announce_iff overflowChecks nodes
    (c := ⟨origin.message, dst, none, some 0⟩) (x := 0) rfl
  rw [UInt8.toNat_zero, Nat.zero_add, Nat.zero_add] at hiff
  rw [← hiff, hrun]
  constructor
  · rintro ⟨m, managers, heq, -, hfrom⟩
    obtain ⟨rest, hrest, hcons⟩ := map_eq_some_iff.mp heq
    obtain ⟨rfl, rfl⟩ := cons_eq_cons.mp hcons
    exact ⟨rest, hrest, hfrom⟩
  · rintro ⟨managers, hrest, hfrom⟩
    exact ⟨manager, managers, by rw [hrest]; rfl, (hstores 0).mpr rfl, hfrom⟩

/-- Without overflow checks the `k`-th node behind the first stores `k` modulo 256. -/
private theorem announceAll_false (origin : ChainNode dst) (nodes : List (ChainNode dst)) :
    ∃ managers, announceAll false origin nodes = some managers ∧
      ∀ i node, nodes[i]? = some node → ∃ manager, managers[i + 1]? = some manager ∧
        ∀ k, node.Stores (some node.gwIn) manager k ↔ (i + 1) % 256 = k := by
  obtain ⟨manager, hset, -⟩ := origin.setRoute_spec (some_ne_none _).symm 0
  obtain ⟨managers, hrun, hstores⟩ := announce_false nodes
    (c := ⟨origin.message, dst, none, some 0⟩) (x := 0) rfl
  refine ⟨manager :: managers, ?_, fun i node hi => ?_⟩
  · rw [announceAll, announceLocal, hset]
    simp only [bind, Option.bind, List.head?_cons, hrun]
    rfl
  · obtain ⟨m, hm, hiff⟩ := hstores i node hi
    refine ⟨m, by simpa using hm, fun k => ?_⟩
    rw [hiff, UInt8.toNat_zero, Nat.zero_add]

/-- A node without any routes. -/
def sampleNode : ChainNode netF1 where
  env := plainEnv
  message := sampleKey
  gwIn := ⟨0xa101#64⟩
  gwOut := ⟨0xa102#64⟩
  gw_ne := by decide
  manager := { Manager.init with routeSubscribers := [(1, ⟨0xc001#64⟩)] }
  subscriber := ⟨0xc001#64⟩
  watchRef := 1
  subscribed := rfl
  registry := .empty
  reply := ⟨⟨0xb001#64⟩, 2⟩
  nets := {netF1}
  dst_mem := rfl
  workersOk := by
    refine ((Manager.exact_withLocals []).workersOk ?_ ?_).congr rfl rfl rfl
    · refine apart_of_disjoint ?_ ?_
      · rintro n rfl
        decide
      · rintro n rfl n' rfl
        exact .inl rfl
    · rintro n ⟨p, hp, -⟩
      exact absurd hp not_mem_nil
  inv := inv_empty
  netsIn p hp := absurd hp not_mem_nil
  fresh p hp := absurd hp not_mem_nil

/-- The node behind 256 connections stores `0`; with overflow checks, the connection of the node
to which `255` is announced panics. -/
theorem metric_wraps_at_256 :
    (∃ managers manager,
      announceAll false sampleNode (List.replicate 256 sampleNode) = some managers ∧
      managers[256]? = some manager ∧ sampleNode.Stores (some ⟨0xa101#64⟩) manager 0) ∧
    sampleNode.onSubnetDistance true (some 255) = none := by
  refine ⟨?_, by decide⟩
  obtain ⟨managers, hrun, hstores⟩ := announceAll_false sampleNode (List.replicate 256 sampleNode)
  obtain ⟨manager, hget, hiff⟩ := hstores 255 sampleNode
    (List.getElem?_replicate_of_lt (by decide))
  exact ⟨managers, manager, hrun, hget, (hiff 0).mpr (by decide)⟩

end ChainNode

end Mm1
