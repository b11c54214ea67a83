import Mm1.Multinode.Manager
import Mm1.Multinode.Waitlist

/-!
# What a registration announces

The handler of `RegisterProtocol` gives keys to the message types of the protocol, and tells the
manager a local route to each local subnet for each of them. It does so after `register_protocol`,
and whatever `register_protocol` has answered: a protocol that is rejected is announced, too.

* `NetManager`: the manager, with its protocols and with its routes;
* `onRegisterProtocol_ok`: what the handler has done;
* `setRoute_zero_cases`: a local route is set already, or the registry grows;
* `rejected_unchanged_iff`: when a protocol that is rejected leaves nothing behind;
* `rejected_announces`: one that does.
-/

namespace Mm1

open OrderedMap Fallible Option List Function RouteRegistry ProtocolRegistry

variable {TypeId : Type} {typeName : TypeId → MessageName} {old : Option RouteMetric}
  {m : LocalTypeKey} {e : RouteEntry} {n : NetAddress} {g : Option Address} {key : RouteKey}

/-- `MultinodeManager`, as far as protocols and routes are concerned. -/
structure NetManager (typeName : TypeId → MessageName) where
  localSubnets : List (AddressRange × Unit)
  routeRegistry : RouteRegistry
  routeSubscribers : List (WatchRef × Address)
  routeGws : List (WatchRef × Address)
  protocolRegistry : ProtocolRegistry typeName
  protocolWaitlist : Waitlist
  subnetIngressWorkers : List (AddressRange × Address)

namespace NetManager

/-- The manager as `run` builds it. -/
def init : NetManager typeName := ⟨[], .empty, [], [], .empty, .empty, []⟩

/-- What the handlers of `Waitlist` see of the manager. -/
def protocols (s : NetManager typeName) : MultinodeManager typeName :=
  ⟨s.localSubnets, s.protocolRegistry, s.protocolWaitlist⟩

def withProtocols (s : NetManager typeName) (p : MultinodeManager typeName) :
    NetManager typeName :=
  { s with
    localSubnets := p.localSubnets
    protocolRegistry := p.protocolRegistry
    protocolWaitlist := p.protocolWaitlist }

/-- What the handlers of `Manager` see of the manager. -/
def routes (s : NetManager typeName) : Manager :=
  ⟨s.localSubnets, s.routeRegistry, s.routeSubscribers, s.routeGws, s.subnetIngressWorkers⟩

def withRoutes (s : NetManager typeName) (m : Manager) : NetManager typeName :=
  { s with
    localSubnets := m.localSubnets
    routeRegistry := m.routeRegistry
    routeSubscribers := m.routeSubscribers
    routeGws := m.routeGws
    subnetIngressWorkers := m.subnetIngressWorkers }

/-- `OnRequest<RegisterLocalSubnetRequest>` -/
def onRegisterLocalSubnet (s : NetManager typeName) (net : NetAddress) : NetManager typeName :=
  s.withRoutes (s.routes.onRegisterLocalSubnet net)

/-- `OnMessage<SetRoute>` -/
def onSetRoute (env : Env) (s : NetManager typeName) (c : SetRoute) (reply : Reply) :
    Except ManagerPanic (NetManager typeName × List (Address × SetRoute)) := do
  let (m, told) ← s.routes.onSetRoute env c reply
  return (s.withRoutes m, told)

/-- One message `SetRoute` after the other. -/
def onSetRoutes (env : Env) (reply : SetRoute → Reply) (s : NetManager typeName) :
    List SetRoute → Except ManagerPanic (NetManager typeName)
  | [] => .ok s
  | c :: rest => do
    let (s, _) ← s.onSetRoute env c (reply c)
    s.onSetRoutes env reply rest

variable [DecidableEq TypeId]

/-- `OnRequest<RegisterProtocolRequest>` -/
def onRegisterProtocol (ans : MultinodeManager.Answers) (s : NetManager typeName)
    (replyTo : RequestHeader) (name : ProtocolName) (protocol : Protocol typeName) :
    Except WaitlistPanic (NetManager typeName × List (MultinodeManager.Sent typeName)) := do
  let (p, sent) ← s.protocols.onRegisterProtocol ans replyTo name protocol
  return (s.withProtocols p, sent)

end NetManager

/-- The message that the manager has told itself. -/
def MultinodeManager.Sent.route : Sent typeName → Option SetRoute
  | .setRoute c => some c
  | _ => none

/-- The messages that the manager has told itself. -/
def routesOf (sent : List (MultinodeManager.Sent typeName)) : List SetRoute :=
  sent.filterMap MultinodeManager.Sent.route

/-- The destinations of local routes. -/
def subnetsOf (localSubnets : List (AddressRange × Unit)) : List NetAddress :=
  localSubnets.map fun (net, _) => NetAddress.ofRange net

/-! ### The handler -/

section Handler

variable [DecidableEq TypeId] {ans : MultinodeManager.Answers} {s s' : NetManager typeName}
  {replyTo : RequestHeader} {name : ProtocolName} {protocol : Protocol typeName}
  {sent : List (MultinodeManager.Sent typeName)}

omit [DecidableEq TypeId] in
/-- The routes among the messages. -/
private theorem routesOf_announced (routes : List SetRoute)
    (answer : Except (ErrorOf RegisterProtocolErrorKind) Unit) (hits : List Waitlist.Hit)
    (resolved : ProtocolResolved typeName) :
    routesOf (routes.map .setRoute ++ .registerProtocol replyTo answer :: hits.flatMap fun hit =>
        [.cancel hit.timerKey, .getProtocolByName hit.replyTo (.ok resolved)]) = routes := by
  have hhits : routesOf (hits.flatMap fun hit =>
      [.cancel hit.timerKey, .getProtocolByName hit.replyTo (.ok resolved)]) = [] := by
    rw [routesOf, filterMap_flatMap]
    exact flatMap_eq_nil_iff.mpr fun _ _ => rfl
  rw [routesOf, filterMap_append, filterMap_map, filterMap_cons_none rfl]
  rw [routesOf] at hhits
  rw [hhits, append_nil]
  exact filterMap_some

/-- What `process_request` does to the registry, and to nothing else that is read later. -/
private theorem MultinodeManager.processRequest_ok {p p₁ : MultinodeManager typeName}
    {answer : Except (ErrorOf RegisterProtocolErrorKind) Unit} {hits : List Waitlist.Hit}
    (h : p.processRequest ans name protocol = .ok (p₁, answer, hits)) :
    p.protocolRegistry.registerProtocol ans.codecs name protocol =
        .ok (p₁.protocolRegistry, answer) ∧ p₁.localSubnets = p.localSubnets := by
  obtain ⟨⟨r₀, answer₀⟩, hregister, hrest⟩ := exists_of_bind_eq_ok h
  have hregister := eq_ok_of_mapError hregister
  cases answer₀ with
  | error e =>
    obtain ⟨rfl, heq⟩ := eq_of_ok_mk hrest
    obtain ⟨rfl, -⟩ := Prod.mk.inj heq
    exact ⟨hregister, rfl⟩
  | ok _ =>
    obtain ⟨⟨taken, waitlist⟩, -, hdone⟩ := exists_of_bind_eq_ok hrest
    obtain ⟨rfl, heq⟩ := eq_of_ok_mk hdone
    obtain ⟨rfl, -⟩ := Prod.mk.inj heq
    exact ⟨hregister, rfl⟩

/-- **What the handler has done**: it has registered the protocol or not, then the types and the
routes, then the types again. -/
theorem NetManager.onRegisterProtocol_ok
    (h : s.onRegisterProtocol ans replyTo name protocol = .ok (s', sent)) :
    ∃ r₀ answer r₁ resolved,
      s.protocolRegistry.registerProtocol ans.codecs name protocol = .ok (r₀, answer) ∧
      ProtocolRegistry.announce ans.codecs (subnetsOf s.localSubnets) ans.room r₀
        protocol.inboundTypes = .ok (routesOf sent, r₁) ∧
      r₁.resolve ans.codecs protocol = .ok (resolved, s'.protocolRegistry) ∧
      (∀ answer', .registerProtocol replyTo answer' ∈ sent → answer' = answer) ∧
      s'.localSubnets = s.localSubnets ∧ s'.routeRegistry = s.routeRegistry := by
  obtain ⟨⟨p, sent'⟩, hhandle, heq⟩ := exists_of_bind_eq_ok h
  obtain ⟨rfl, rfl⟩ := eq_of_ok_mk heq
  obtain ⟨⟨p₁, answer, hits⟩, hprocess, hrest⟩ := exists_of_bind_eq_ok hhandle
  obtain ⟨⟨routes, r₁⟩, hannounce, hrest⟩ := exists_of_bind_eq_ok hrest
  obtain ⟨⟨resolved, r₂⟩, hresolve, hdone⟩ := exists_of_bind_eq_ok hrest
  obtain ⟨rfl, rfl⟩ := eq_of_ok_mk hdone
  obtain ⟨hregister, hsubnets⟩ := MultinodeManager.processRequest_ok hprocess
  refine ⟨p₁.protocolRegistry, answer, r₁, resolved, hregister, ?_, eq_ok_of_mapError hresolve,
    ?_, hsubnets, rfl⟩
  · rw [routesOf_announced, ← hannounce, hsubnets]
    rfl
  · intro answer' hmem
    simpa using hmem

end Handler

/-! ### Types that are registered already -/

namespace ProtocolRegistry

variable [DecidableEq TypeId] {slots : Roster.Slots LocalTypeKey} {r r' : ProtocolRegistry typeName}
  {c : ErasedCodecApi typeName} {cs : List (ErasedCodecApi typeName)} {k : LocalTypeKey}
  {protocol : Protocol typeName}

section Announce

variable {subnets : List NetAddress} {room : ℕ} {routes : List SetRoute}
  {names : List (MessageName × LocalTypeKey)}

/-- The local routes for the keys of some types. -/
def localRoutes (subnets : List NetAddress) (names : List (MessageName × LocalTypeKey)) :
    List SetRoute :=
  names.flatMap fun p => subnets.map fun net => ⟨p.2, net, none, some 0⟩

theorem mem_localRoutes {route : SetRoute} : route ∈ localRoutes subnets names ↔
    ∃ p ∈ names, ∃ net ∈ subnets, route = ⟨p.2, net, none, some 0⟩ := by
  simp only [localRoutes, List.mem_flatMap, List.mem_map, eq_comm]

/-- **What is announced** are the local routes for the types, which are registered as they are by
`register_messages`. -/
theorem registerMessages_of_announce (h : announce slots subnets room r cs = .ok (routes, r')) :
    ∃ names, r.registerMessages slots cs = .ok (names, r') ∧
      routes = localRoutes subnets names := by
  induction cs generalizing r room routes with
  | nil =>
    obtain ⟨rfl, rfl⟩ := eq_of_ok_mk h
    exact ⟨[], rfl, rfl⟩
  | cons c cs ih =>
    obtain ⟨⟨k, r₁⟩, hreg, hrest⟩ := exists_of_bind_eq_ok h
    dsimp only at hrest
    split at hrest
    case isTrue => contradiction
    case isFalse =>
      obtain ⟨⟨rest, r₂⟩, hannounce, hdone⟩ := exists_of_bind_eq_ok hrest
      obtain ⟨rfl, rfl⟩ := eq_of_ok_mk hdone
      obtain ⟨names, hmessages, rfl⟩ := ih hannounce
      refine ⟨(c.name, k) :: names, ?_, rfl⟩
      rw [registerMessages, eq_ok_of_mapError hreg]
      dsimp only [bind, Except.bind]
      rw [hmessages]
      rfl

/-- A turn of the loop over the types. -/
private theorem registerMessages_cons_ok
    (h : r.registerMessages slots (c :: cs) = .ok (names, r')) :
    ∃ k r₁ rest, r.registerMessage slots c = .ok (k, r₁) ∧
      r₁.registerMessages slots cs = .ok (rest, r') ∧ names = (c.name, k) :: rest := by
  obtain ⟨⟨k, r₁⟩, hreg, hrest⟩ := exists_of_bind_eq_ok h
  obtain ⟨⟨rest, r₂⟩, hmessages, hdone⟩ := exists_of_bind_eq_ok hrest
  obtain ⟨rfl, rfl⟩ := eq_of_ok_mk hdone
  exact ⟨k, r₁, rest, hreg, hmessages, rfl⟩

/-- Types have keys after they were registered. -/
private theorem exists_knows_of_registerMessages (h : r.registerMessages slots cs = .ok (names, r'))
    (hcs : ∀ c ∈ cs, c.tid.isSome = true) {d : ErasedCodecApi typeName}
    (hd : d ∈ cs ∨ ∃ j, r.Knows d j) : ∃ j, r'.Knows d j := by
  induction cs generalizing r names with
  | nil =>
    obtain ⟨-, rfl⟩ := eq_of_ok_mk h
    exact hd.resolve_left not_mem_nil
  | cons c cs ih =>
    obtain ⟨hc, hcs⟩ := forall_mem_cons.mp hcs
    obtain ⟨k, r₁, rest, hreg, hmessages, -⟩ := registerMessages_cons_ok h
    have hstep := (registers_of_registerMessage hreg).knows hc (d := d)
    refine ih hmessages hcs ?_
    rcases hd with hd | hd
    · exact (mem_cons.mp hd).symm.imp id fun heq => hstep (.inl heq)
    · exact .inr (hstep (.inr hd))

/-- Types that have keys are resolved to them, and nothing is registered. -/
private theorem registerMessages_of_knows (h : r.registerMessages slots cs = .ok (names, r'))
    (hcs : ∀ c ∈ cs, ∃ k, r.Knows c k) :
    r' = r ∧ ∀ p, p ∈ names ↔ ∃ c ∈ cs, c.name = p.1 ∧ r.Knows c p.2 := by
  induction cs generalizing names with
  | nil =>
    obtain ⟨rfl, rfl⟩ := eq_of_ok_mk h
    exact ⟨rfl, fun p => by simp⟩
  | cons c cs ih =>
    obtain ⟨⟨k, hk⟩, hcs⟩ := forall_mem_cons.mp hcs
    obtain ⟨k', r₁, rest, hreg, hmessages, rfl⟩ := registerMessages_cons_ok h
    rw [registerMessage_of_knows hk] at hreg
    obtain ⟨rfl, rfl⟩ := eq_of_ok_mk hreg
    obtain ⟨rfl, hmem⟩ := ih hmessages hcs
    refine ⟨rfl, fun p => ?_⟩
    have hhead : p = (c.name, k) ↔ c.name = p.1 ∧ r'.Knows c p.2 := by
      constructor
      · rintro rfl
        exact ⟨rfl, hk⟩
      · rintro ⟨hname, hp⟩
        exact Prod.ext hname.symm (hp.unique hk)
    rw [mem_cons, hhead, hmem, exists_mem_cons_iff]

private theorem resolve_ok {resolved : ProtocolResolved typeName}
    (h : r.resolve slots protocol = .ok (resolved, r')) :
    ∃ outbound r₁ inbound, r.registerMessages slots protocol.outboundTypes = .ok (outbound, r₁) ∧
      r₁.registerMessages slots protocol.inboundTypes = .ok (inbound, r') := by
  obtain ⟨⟨outbound, r₁⟩, hout, hrest⟩ := exists_of_bind_eq_ok h
  obtain ⟨⟨inbound, r₂⟩, hin, hdone⟩ := exists_of_bind_eq_ok hrest
  obtain ⟨-, rfl⟩ := eq_of_ok_mk hdone
  exact ⟨outbound, r₁, inbound, hout, hin⟩

private theorem registerProtocol_error {name : ProtocolName} {e : ErrorOf RegisterProtocolErrorKind}
    (h : r.registerProtocol slots name protocol = .ok (r', .error e)) : r' = r := by
  rw [registerProtocol] at h
  split at h
  case h_1 => exact (eq_of_ok_mk h).1.symm
  case h_2 =>
    obtain ⟨r₁, -, hdone⟩ := exists_of_bind_eq_ok h
    have := (eq_of_ok_mk hdone).2
    contradiction

end Announce

end ProtocolRegistry

/-! ### Routes that are there already -/

namespace RouteRegistry

variable {env : Env} {r r' : RouteRegistry}

/-- The route that `by_gw` has for the destination has this metric. -/
def HasMetric (env : Env) (r : RouteRegistry) (m : LocalTypeKey) (n : NetAddress)
    (g : Option Address) (x : RouteMetric) : Prop :=
  ∃ f, entry gwCmp (g, .ofNet n, m) r.byGw env.gwSearch = some f ∧
    ∃ e, r.index f.2 = .ok e ∧ e.metric = x

/-- A call that changes nothing: there is a conflict, or the route has this metric already. -/
def Settled (env : Env) (r : RouteRegistry) (m : LocalTypeKey) (n : NetAddress)
    (g : Option Address) (x : RouteMetric) : Prop :=
  r.dstConflict env m n (some x) ≠ none ∨ r.gwConflict env m n g ≠ none ∨ r.HasMetric env m n g x

/-- The number of routes, where those with metric 0 count twice. -/
def weight (r : RouteRegistry) : ℕ :=
  (r.routeEntries.map fun p => if p.2.metric = 0 then 2 else 1).sum

private theorem mem_of_index (h : r.index key = .ok e) : (key, e) ∈ r.routeEntries := by
  rw [index] at h
  split at h
  case h_1 key' e' hfind =>
    obtain rfl := Except.ok.inj h
    have hkey : key' = key := by simpa using List.find?_some hfind
    exact hkey ▸ mem_of_find?_eq_some hfind
  case h_2 => contradiction

/-- A route that is there gets the metric 0. -/
private theorem weight_of_changeMetric (he : r.index key = .ok e)
    (h : r.changeMetric env m n 0 key = .ok (r', old)) :
    e.metric = 0 ∧ r' = r ∨ e.metric ≠ 0 ∧ r.weight < r'.weight := by
  rw [changeMetric, he] at h
  dsimp only [bind, Except.bind] at h
  split at h
  case isTrue hmetric => exact .inl ⟨hmetric.symm, (eq_of_ok_mk h).1.symm⟩
  case isFalse hmetric =>
    obtain ⟨byDst, -, hdone⟩ := exists_of_bind_eq_ok h
    obtain ⟨rfl, -⟩ := eq_of_ok_mk hdone
    refine .inr ⟨fun hzero => hmetric hzero.symm, ?_⟩
    rw [weight, weight, List.map_map]
    refine List.sum_lt_sum _ _ (fun p _ => ?_) ⟨(key, e), mem_of_index he, ?_⟩
    · dsimp only [comp]
      split <;> split <;> simp_all
    · simp [Ne.symm hmetric]

/-- A new route. -/
private theorem weight_of_addRoute (h : r.addRoute env e = .ok (r', old)) :
    r.weight < r'.weight := by
  rw [addRoute] at h
  dsimp only at h
  split at h
  case h_1 byDst hadd =>
    obtain ⟨rfl, -⟩ := eq_of_ok_mk h
    have hperm := perm_insertIdx ((env.alloc (r.routeEntries.map Prod.fst)).1, e)
      r.routeEntries (min_le_right (env.alloc (r.routeEntries.map Prod.fst)).2 _)
    rw [weight, weight, (hperm.map _).sum_eq, map_cons, sum_cons]
    refine Nat.lt_add_of_pos_left ?_
    split <;> exact Nat.succ_pos _
  case h_2 => contradiction

/-- A local route is there, or is new. -/
private theorem update_zero_cases (h : r.update env m n g (some 0) = .ok (r', old)) :
    r.HasMetric env m n g 0 ∧ r' = r ∨ ¬ r.HasMetric env m n g 0 ∧ r.weight < r'.weight := by
  rw [update.eq_def] at h
  cases hentry : entry gwCmp (g, .ofNet n, m) r.byGw env.gwSearch with
  | none =>
    rw [hentry] at h
    refine .inr ⟨?_, weight_of_addRoute h⟩
    rintro ⟨f, hf, -⟩
    rw [hentry] at hf
    contradiction
  | some f =>
    rw [hentry] at h
    have hchange : r.changeMetric env m n 0 f.2 = .ok (r', old) := h
    obtain ⟨e, he, -⟩ := exists_of_bind_eq_ok hchange
    have hiff : r.HasMetric env m n g 0 ↔ e.metric = 0 := by
      simp [HasMetric, hentry, he]
    rw [hiff]
    exact weight_of_changeMetric he hchange

/-- **A local route is set already, or the registry grows.** -/
theorem setRoute_zero_cases {answer : Except SetRouteError (Option RouteMetric)}
    (h : r.setRoute env m n g (some 0) = .ok (r', answer)) :
    r.Settled env m n g 0 ∧ r' = r ∨ ¬ r.Settled env m n g 0 ∧ r.weight < r'.weight := by
  rw [setRoute] at h
  cases hdst : r.dstConflict env m n (some 0) with
  | some net =>
    rw [hdst] at h
    refine .inl ⟨.inl ?_, (eq_of_ok_mk h).1.symm⟩
    rw [hdst]
    exact some_ne_none net
  | none =>
    cases hgw : r.gwConflict env m n g with
    | some net =>
      rw [hdst, hgw] at h
      refine .inl ⟨.inr (.inl ?_), (eq_of_ok_mk h).1.symm⟩
      rw [hgw]
      exact some_ne_none net
    | none =>
      rw [hdst, hgw] at h
      obtain ⟨⟨r₁, old⟩, hupdate, hdone⟩ := exists_of_bind_eq_ok h
      obtain ⟨rfl, -⟩ := eq_of_ok_mk hdone
      have hiff : r.Settled env m n g 0 ↔ r.HasMetric env m n g 0 := by
        simp [Settled, hdst, hgw]
      rw [hiff]
      exact update_zero_cases hupdate

private theorem apply_error {c : SetRoute} {e : SetRouteError}
    (h : r.apply env c = .ok (r', .error e)) : r' = r := by
  rw [apply, setRoute] at h
  split at h
  case h_1 => exact (eq_of_ok_mk h).1.symm
  case h_2 =>
    obtain ⟨⟨r₁, old⟩, -, hdone⟩ := exists_of_bind_eq_ok h
    have := (eq_of_ok_mk hdone).2
    contradiction

end RouteRegistry

/-! ### A protocol that is rejected -/

namespace NetManager

variable {env : Env} {s s' s₁ s₂ : NetManager typeName} {c : SetRoute} {cs : List SetRoute}

/-- What a message `SetRoute` does to the routes. -/
theorem onSetRoute_ok {reply : Reply} {told : List (Address × SetRoute)}
    (h : s.onSetRoute env c reply = .ok (s', told)) :
    (∃ answer, s.routeRegistry.apply env c = .ok (s'.routeRegistry, answer)) ∧
      s'.protocolRegistry = s.protocolRegistry ∧ s'.localSubnets = s.localSubnets := by
  obtain ⟨⟨m, told'⟩, hset, heq⟩ := exists_of_bind_eq_ok h
  obtain ⟨rfl, -⟩ := eq_of_ok_mk heq
  obtain ⟨⟨r, answer⟩, happly, hrest⟩ := exists_of_bind_eq_ok hset
  have happly : s.routeRegistry.apply env c = .ok (r, answer) := eq_ok_of_mapError happly
  cases answer with
  | error e =>
    obtain ⟨rfl, -⟩ := eq_of_ok_mk hrest
    obtain rfl := apply_error happly
    exact ⟨⟨.error e, happly⟩, rfl, rfl⟩
  | ok old =>
    obtain ⟨workers, -, hdone⟩ := exists_of_bind_eq_ok hrest
    obtain ⟨rfl, -⟩ := eq_of_ok_mk hdone
    exact ⟨⟨.ok old, happly⟩, rfl, rfl⟩

/-- Local routes that are told one after the other do not undo one another: the routes are as they
were if and only if each of the messages changes nothing. -/
private theorem onSetRoutes_unchanged_iff {reply : SetRoute → Reply}
    (hcs : ∀ c ∈ cs, c.via = none ∧ c.metric = some 0)
    (h : s.onSetRoutes env reply cs = .ok s') :
    s'.protocolRegistry = s.protocolRegistry ∧ s.routeRegistry.weight ≤ s'.routeRegistry.weight ∧
      (s'.routeRegistry = s.routeRegistry ↔
        ∀ c ∈ cs, s.routeRegistry.Settled env c.message c.destination none 0) := by
  induction cs generalizing s with
  | nil =>
    obtain rfl := Except.ok.inj h
    exact ⟨rfl, le_rfl, iff_of_true rfl fun c hc => absurd hc not_mem_nil⟩
  | cons c cs ih =>
    obtain ⟨⟨hvia, hmetric⟩, hcs⟩ := forall_mem_cons.mp hcs
    obtain ⟨⟨s₁, told⟩, hset, hrest⟩ := exists_of_bind_eq_ok h
    obtain ⟨⟨answer, happly⟩, hprot, -⟩ := onSetRoute_ok hset
    obtain ⟨hprot', hweight, hiff⟩ := ih hcs hrest
    rw [RouteRegistry.apply, hvia, hmetric] at happly
    refine ⟨hprot'.trans hprot, ?_⟩
    rw [forall_mem_cons]
    rcases setRoute_zero_cases happly with ⟨hsettled, heq⟩ | ⟨hnot, hlt⟩
    · rw [heq] at hweight hiff
      exact ⟨hweight, hiff.trans (and_iff_right hsettled).symm⟩
    · refine ⟨(hlt.trans_le hweight).le, iff_of_false (fun heq => ?_) fun hall => hnot hall.1⟩
      rw [heq] at hweight
      exact (hlt.trans_le hweight).ne rfl

variable [DecidableEq TypeId]

/-- **When a protocol that is rejected leaves nothing behind.** `RegisterProtocol` is answered with
an error, and then the messages that the manager has told itself are handled. The registry of
protocols and the routes are as they were if and only if each message type of the protocol had a
key, and each local subnet had a local route for it with metric 0, or could not get one because of a
conflict. -/
theorem rejected_unchanged_iff {ans : MultinodeManager.Answers} {reply : SetRoute → Reply}
    {replyTo : RequestHeader} {name : ProtocolName} {protocol : Protocol typeName}
    {sent : List (MultinodeManager.Sent typeName)} {e : ErrorOf RegisterProtocolErrorKind}
    (h : s.onRegisterProtocol ans replyTo name protocol = .ok (s₁, sent))
    (herror : .registerProtocol replyTo (.error e) ∈ sent)
    (hroutes : s₁.onSetRoutes env reply (routesOf sent) = .ok s₂) :
    (s₂.protocolRegistry = s.protocolRegistry ∧ s₂.routeRegistry = s.routeRegistry) ↔
      ∀ c ∈ protocol.codecs, ∃ k, s.protocolRegistry.Knows c k ∧
        ∀ net ∈ subnetsOf s.localSubnets, s.routeRegistry.Settled env k net none 0 := by
  obtain ⟨r₀, answer, r₁, resolved, hregister, hannounce, hresolve, hanswer, -, hrr⟩ :=
    onRegisterProtocol_ok h
  obtain rfl := hanswer _ herror
  obtain rfl := registerProtocol_error hregister
  obtain ⟨outbound, r₂, inbound, hout, hin⟩ := resolve_ok hresolve
  obtain ⟨names, hnames, htold⟩ := registerMessages_of_announce hannounce
  have hlocal : ∀ c ∈ routesOf sent, c.via = none ∧ c.metric = some 0 := by
    intro c hc
    obtain ⟨p, -, net, -, rfl⟩ := mem_localRoutes.mp (htold ▸ hc)
    exact ⟨rfl, rfl⟩
  obtain ⟨hprot, -, hunchanged⟩ := onSetRoutes_unchanged_iff hlocal hroutes
  rw [hprot, ← hrr, hunchanged, htold]
  constructor
  · rintro ⟨hsame, hsettled⟩
    -- whatever was registered again has a key now, and so it had one before
    have hknows : ∀ c ∈ protocol.codecs, ∃ k, s.protocolRegistry.Knows c k := by
      intro c hc
      have hin := exists_knows_of_registerMessages hin protocol.known (.inl hc)
      rwa [hsame] at hin
    obtain ⟨-, hmem⟩ := registerMessages_of_knows hnames hknows
    intro c hc
    obtain ⟨k, hk⟩ := hknows c hc
    refine ⟨k, hk, fun net hnet => ?_⟩
    exact hsettled ⟨k, net, none, some 0⟩ (mem_localRoutes.mpr
      ⟨(c.name, k), (hmem _).mpr ⟨c, hc, rfl, hk⟩, net, hnet, rfl⟩)
  · intro hall
    have hknows : ∀ c ∈ protocol.codecs, ∃ k, s.protocolRegistry.Knows c k :=
      fun c hc => (hall c hc).imp fun _ => And.left
    obtain ⟨rfl, hmem⟩ := registerMessages_of_knows hnames hknows
    obtain ⟨rfl, -⟩ := registerMessages_of_knows hout hknows
    refine ⟨(registerMessages_of_knows hin hknows).1, fun route hroute => ?_⟩
    obtain ⟨p, hp, net, hnet, rfl⟩ := mem_localRoutes.mp hroute
    obtain ⟨c, hc, -, hk⟩ := (hmem p).mp hp
    obtain ⟨k', hk', hsettled⟩ := hall c hc
    obtain rfl := hk.unique hk'
    exact hsettled net hnet

/-- Answers with some room in the inbox. -/
def sampleAnswers : MultinodeManager.Answers := ⟨numbered, numbered, .null, false, 8⟩

/-- No worker and no watch is asked for. -/
def sampleReply (_ : SetRoute) : Reply := ⟨⟨0⟩, 0⟩

/-- The same protocol once more. -/
theorem rejected_unchanged_again :
    ∃ s s₁ s₂ : NetManager fun _ : Unit => "message",
      ∃ sent, s.onRegisterProtocol sampleAnswers ⟨2, ⟨8⟩⟩ "protocol" (Protocol.new.addType ()) =
          .ok (s₁, sent) ∧
        routesOf sent ≠ [] ∧
        s₁.onSetRoutes plainEnv sampleReply (routesOf sent) = .ok s₂ ∧
        s₂.protocolRegistry = s.protocolRegistry ∧ s₂.routeRegistry = s.routeRegistry := by
  obtain ⟨s₀, sent₀, hregister, s, hroutes, s₁, sent, hagain, hsent, herror, s₂, hroutes', hknown⟩ :
      ∃ s₀ sent₀, (init.onRegisterLocalSubnet netF1).onRegisterProtocol sampleAnswers
          ⟨1, ⟨7⟩⟩ "protocol" (Protocol.new.addType ()) = .ok (s₀, sent₀) ∧
        ∃ s : NetManager fun _ : Unit => "message",
          s₀.onSetRoutes plainEnv sampleReply (routesOf sent₀) = .ok s ∧
        ∃ s₁ sent, s.onRegisterProtocol sampleAnswers ⟨2, ⟨8⟩⟩ "protocol"
          (Protocol.new.addType ()) = .ok (s₁, sent) ∧ routesOf sent ≠ [] ∧
        .registerProtocol ⟨2, ⟨8⟩⟩ (.error ⟨.duplicateProtocolName, "duplicate protocol name"⟩) ∈
          sent ∧
        ∃ s₂, s₁.onSetRoutes plainEnv sampleReply (routesOf sent) = .ok s₂ ∧
        ∀ c ∈ (Protocol.new.addType ()).codecs, ∃ k, s.protocolRegistry.Knows c k ∧
          ∀ net ∈ subnetsOf s.localSubnets,
            s.routeRegistry.Settled plainEnv k net none 0 := by
    refine ⟨_, _, rfl, _, rfl, _, _, rfl, cons_ne_nil _ _, ?_, _, rfl, ?_⟩
    · exact mem_cons_of_mem _ mem_cons_self
    · refine forall_mem_singleton.mpr ⟨_, ⟨(), rfl, rfl⟩, ?_⟩
      refine forall_mem_singleton.mpr (.inr (.inr ⟨_, rfl, _, rfl, rfl⟩))
  obtain ⟨hprot, hrr⟩ := (rejected_unchanged_iff hagain herror hroutes').mpr hknown
  exact ⟨s, s₁, s₂, sent, hagain, hsent, hroutes', hprot, hrr⟩

/-- **A protocol that is rejected is announced.** The name is taken by a protocol without types. The
new one has a type, which gets a key, and a local route. -/
theorem rejected_announces :
    ∃ s s₁ s₂ : NetManager fun _ : Unit => "message", ∃ sent₀ sent,
      (init.onRegisterLocalSubnet netF1).onRegisterProtocol sampleAnswers ⟨1, ⟨7⟩⟩
          "protocol" .new = .ok (s, sent₀) ∧ routesOf sent₀ = [] ∧
        s.onRegisterProtocol sampleAnswers ⟨2, ⟨8⟩⟩ "protocol" (Protocol.new.addType ()) =
          .ok (s₁, sent) ∧
        .registerProtocol ⟨2, ⟨8⟩⟩ (.error ⟨.duplicateProtocolName, "duplicate protocol name"⟩) ∈
          sent ∧
        s₁.onSetRoutes plainEnv sampleReply (routesOf sent) = .ok s₂ ∧
        s.protocolRegistry.codecByName "message" = none ∧
        s₂.protocolRegistry.codecByName "message" = some (slotKey 1) ∧
        s.routeRegistry.allRoutes = [] ∧
        s₂.routeRegistry.allRoutes =
          [(slotKey 1, netF1, none, 0)] := by
  refine ⟨_, _, _, _, _, rfl, rfl, rfl, ?_, rfl, rfl, rfl, rfl, ?_⟩
  · exact mem_cons_of_mem _ mem_cons_self
  · rfl

end NetManager

end Mm1
