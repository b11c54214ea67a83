import Mathlib.Data.List.Perm.Basic
import Mm1.Address.Range
import Mm1.Common.Basic
import Mm1.Lib.Fallible

/-!
# The route registry

`RouteRegistry` of `mm1-multinode`: routes in a slot map, with an index by gateway and an index by
destination. The indexes are ordered maps whose keys contain an `AddressRange`, so that a range
finds the entries whose range it overlaps.

The slot map, the trees of the ordered maps, and the iteration order and the hashes of the standard
library are parameters (`Env`). A failed assertion, a `panic!` and a failed index are results of the
model (`Panic`).
-/

namespace Mm1

open OrderedMap NetAddress

/-! ### Keys -/

/-- The key of a message type on this node. -/
abbrev LocalTypeKey := KeyData

/-- `RouteMetric`: the number of hops. -/
abbrev RouteMetric := UInt8

/-- `m + 1` for a `u8`, in a build with or without overflow checks; `none` is a panic. -/
def RouteMetric.addOne (overflowChecks : Bool) (m : RouteMetric) : Option RouteMetric :=
  if overflowChecks = true ∧ m = 255 then none else some (m + 1)

/-- The key of a route in the slot map. -/
abbrev RouteKey := ℕ

/-- The derived `Ord` of `Option<Address>`: `None` comes first. -/
def gatewayCmp (g g' : Option Address) : Ordering :=
  compare (g.map (·.intoU64.toNat)) (g'.map (·.intoU64.toNat))

theorem orderOn_gatewayCmp {S : Set (Option Address)} : OrderOn gatewayCmp S := by
  refine orderOn_compare.comap (f := Option.map fun a : Address => a.intoU64.toNat) ?_
  refine Option.map_injective fun a a' h => ?_
  exact Address.ext (BitVec.eq_of_toNat_eq h)

/-! ### The registry -/

/-- A route. -/
structure RouteEntry where
  message : LocalTypeKey
  dstNet : NetAddress
  gw : Option Address
  metric : RouteMetric
  deriving DecidableEq

abbrev GwKey := Option Address × AddressRange × LocalTypeKey

abbrev DstKey := AddressRange × LocalTypeKey × RouteMetric

/-- The order of `by_gw`. -/
def gwCmp : GwKey → GwKey → Ordering := lexCmp gatewayCmp (lexCmp AddressRange.cmp KeyData.cmp)

/-- The order of `by_dst`. -/
def dstCmp : DstKey → DstKey → Ordering := lexCmp AddressRange.cmp (lexCmp KeyData.cmp compare)

/-- The key of a route in `by_gw`. -/
def RouteEntry.gwKey (e : RouteEntry) : GwKey := (e.gw, .ofNet e.dstNet, e.message)

/-- The key of a route in `by_dst`. -/
def RouteEntry.dstKey (e : RouteEntry) : DstKey := (.ofNet e.dstNet, e.message, e.metric)

/-- `RouteRegistry`. The slot map is listed in the order of its slots. -/
structure RouteRegistry where
  routeEntries : List (RouteKey × RouteEntry)
  byGw : List (GwKey × RouteKey)
  byDst : List (DstKey × List RouteKey)
  deriving DecidableEq

/-- What the containers decide. -/
structure Env where
  /-- the key that the slot map gives to a new value, and the place of its slot -/
  alloc : List RouteKey → RouteKey × ℕ
  /-- a new key is not the key of a value that the slot map holds -/
  alloc_fresh : ∀ live, (alloc live).1 ∉ live
  /-- the order in which a `HashSet` is iterated -/
  iter : List RouteKey → List RouteKey
  iter_perm : ∀ s, (iter s).Perm s
  /-- the hash of an address -/
  addrHash : Address → ℕ
  /-- the tree of `by_gw` -/
  gwSearch : Search
  /-- the tree of `by_dst` -/
  dstSearch : Search

/-- `SetRouteError`. -/
inductive SetRouteError
  | conflict (net : NetAddress)
  deriving DecidableEq

/-- `FindRouteError`. -/
inductive FindRouteError
  | noRoute
  deriving DecidableEq

/-- What ends the code that calls the registry. -/
inductive Panic
  /-- `route_entries[key]` -/
  | noEntry
  /-- `panic!("old_by_destination missing")` -/
  | oldByDestinationMissing
  /-- `assert!(existed_before)` -/
  | notExistedBefore
  /-- `assert!(newly_added)` -/
  | notNewlyAdded
  /-- `assert!(!candidates.is_empty())` -/
  | candidatesEmpty
  /-- `candidates[addr_hash % candidates.len()]` -/
  | noCandidate
  deriving DecidableEq

/-- The number of routes that `find_route` chooses from. -/
def maxCandidates : ℕ := 4

namespace RouteRegistry

/-- `RouteRegistry::default`. -/
def empty : RouteRegistry := ⟨[], [], []⟩

/-- `all_routes`. -/
def allRoutes (r : RouteRegistry) :
    List (LocalTypeKey × NetAddress × Option Address × RouteMetric) :=
  r.routeEntries.map fun (_, e) => (e.message, e.dstNet, e.gw, e.metric)

/-- `all_routes_by_gw`. -/
def allRoutesByGw (r : RouteRegistry) (soughtGw : Address) :
    List (LocalTypeKey × NetAddress × RouteMetric) :=
  r.routeEntries.filterMap fun (_, e) =>
    if e.gw = some soughtGw then some (e.message, e.dstNet, e.metric) else none

/-- `contains_net`: the keys next to the probe on both sides. -/
def containsNet (env : Env) (r : RouteRegistry) (net : NetAddress) : Bool :=
  let probeKey : DstKey := (.ofNet net, .null, 0)
  (nextBack dstCmp probeKey r.byDst env.dstSearch).any (ofRange ·.1.1 = net) ||
    (next dstCmp probeKey r.byDst env.dstSearch).any (ofRange ·.1.1 = net)

/-- `route_entries[key]`. -/
def index (r : RouteRegistry) (key : RouteKey) : Except Panic RouteEntry :=
  match r.routeEntries.find? (·.1 = key) with
  | some (_, e) => .ok e
  | none => .error .noEntry

/-- `find_route`. The entry that is found need not have a range with the address in it. -/
def findRoute (env : Env) (r : RouteRegistry) (message : LocalTypeKey) (dstAddr : Address) :
    Except Panic (Except FindRouteError (Option Address × RouteMetric)) :=
  let lookupKey : DstKey := (.ofAddress dstAddr, message, 0)
  match (next dstCmp lookupKey r.byDst env.dstSearch).filter (fun e => e.1.2.1 = message) with
  | none => .ok (.error .noRoute)
  | some (_, s) =>
    let candidates := (env.iter s).take maxCandidates
    if candidates = [] then .error .candidatesEmpty
    else
      match candidates[env.addrHash dstAddr % candidates.length]? with
      | none => .error .noCandidate
      | some key => do
        let route ← r.index key
        return .ok (route.gw, route.metric)

/-- The check of the entry for the new metric in `by_dst`. -/
def dstConflict (env : Env) (r : RouteRegistry) (message : LocalTypeKey) (dstNet : NetAddress)
    (setMetric : Option RouteMetric) : Option NetAddress :=
  setMetric.bind fun newMetric =>
    let existing := ofRange
      (entryKey dstCmp (.ofNet dstNet, message, newMetric) r.byDst env.dstSearch).1
    if existing ≠ dstNet then some existing else none

/-- The check of the entry for the gateway in `by_gw`. -/
def gwConflict (env : Env) (r : RouteRegistry) (message : LocalTypeKey) (dstNet : NetAddress)
    (gw : Option Address) : Option NetAddress :=
  let existing := ofRange
    (entryKey gwCmp (gw, .ofNet dstNet, message) r.byGw env.gwSearch).2.1
  if existing ≠ dstNet then some existing else none

/-- Takes a route out of the set of its old metric. -/
def dropOld (env : Env) (byDst : List (DstKey × List RouteKey)) (oldKey : DstKey)
    (key : RouteKey) : Except Panic (List (DstKey × List RouteKey)) :=
  match dropFrom dstCmp oldKey key byDst env.dstSearch with
  | none => .error .oldByDestinationMissing
  | some (_, false) => .error .notExistedBefore
  | some (byDst, true) => .ok byDst

/-- `(Some(new_by_dst), BO(by_gw_and_message))`: the route is there and gets a new metric. -/
def changeMetric (env : Env) (r : RouteRegistry) (message : LocalTypeKey) (dstNet : NetAddress)
    (newMetric : RouteMetric) (key : RouteKey) :
    Except Panic (RouteRegistry × Option RouteMetric) := do
  let oldMetric := (← r.index key).metric
  if newMetric = oldMetric then
    return (r, some oldMetric)
  let routeEntries := r.routeEntries.map fun (k, e) =>
    (k, if k = key then { e with metric := newMetric } else e)
  let (byDst, _) := addTo dstCmp (.ofNet dstNet, message, newMetric) key r.byDst env.dstSearch
  let byDst ← dropOld env byDst (.ofNet dstNet, message, oldMetric) key
  return ({ r with routeEntries, byDst }, some oldMetric)

/-- `(Some(new_by_dst), BV(by_gw))`: a new route. -/
def addRoute (env : Env) (r : RouteRegistry) (entry : RouteEntry) :
    Except Panic (RouteRegistry × Option RouteMetric) :=
  let (key, slot) := env.alloc (r.routeEntries.map Prod.fst)
  let routeEntries := r.routeEntries.insertIdx (min slot r.routeEntries.length) (key, entry)
  let byGw := insert gwCmp entry.gwKey key r.byGw env.gwSearch
  match addTo dstCmp entry.dstKey key r.byDst env.dstSearch with
  | (byDst, true) => .ok ({ routeEntries, byGw, byDst }, none)
  | (_, false) => .error .notNewlyAdded

/-- `(None, BO(by_gw))`: the route is removed. -/
def removeRoute (env : Env) (r : RouteRegistry) (message : LocalTypeKey) (dstNet : NetAddress)
    (gw : Option Address) (key : RouteKey) :
    Except Panic (RouteRegistry × Option RouteMetric) := do
  let oldMetric := (← r.index key).metric
  let byDst ← dropOld env r.byDst (.ofNet dstNet, message, oldMetric) key
  let byGw := remove gwCmp (gw, .ofNet dstNet, message) r.byGw env.gwSearch
  let routeEntries := r.routeEntries.filter (·.1 ≠ key)
  return ({ routeEntries, byGw, byDst }, some oldMetric)

/-- What `set_route` does when there is no conflict, with the metric there was. -/
def update (env : Env) (r : RouteRegistry) (message : LocalTypeKey) (dstNet : NetAddress)
    (gw : Option Address) (setMetric : Option RouteMetric) :
    Except Panic (RouteRegistry × Option RouteMetric) :=
  match setMetric, entry gwCmp (gw, .ofNet dstNet, message) r.byGw env.gwSearch with
  | none, none => .ok (r, none)
  | some newMetric, some (_, key) => r.changeMetric env message dstNet newMetric key
  | some newMetric, none => r.addRoute env ⟨message, dstNet, gw, newMetric⟩
  | none, some (_, key) => r.removeRoute env message dstNet gw key

/-- `set_route`: the registry after the call and what the call answers. -/
def setRoute (env : Env) (r : RouteRegistry) (message : LocalTypeKey) (dstNet : NetAddress)
    (gw : Option Address) (setMetric : Option RouteMetric) :
    Except Panic (RouteRegistry × Except SetRouteError (Option RouteMetric)) :=
  match (r.dstConflict env message dstNet setMetric).or (r.gwConflict env message dstNet gw) with
  | some net => .ok (r, .error (.conflict net))
  | none => do
    let (r, old) ← r.update env message dstNet gw setMetric
    return (r, .ok old)

end RouteRegistry

/-- The message `SetRoute`; without a metric it withdraws the route. -/
structure SetRoute where
  message : LocalTypeKey
  destination : NetAddress
  via : Option Address
  metric : Option RouteMetric
  deriving DecidableEq

/-- `From` for the routes that `all_routes` lists. -/
def SetRoute.ofRoute (route : LocalTypeKey × NetAddress × Option Address × RouteMetric) :
    SetRoute :=
  ⟨route.1, route.2.1, route.2.2.1, some route.2.2.2⟩

end Mm1
