import Mm1.Lib.Replay
import Mm1.Multinode.Manager

/-!
# Withdrawing the routes through a gateway

When a gateway is down the manager withdraws its routes one by one: it tells itself a `SetRoute`
without a metric for each of them. A tell to its own address takes a permit of its inbox, and is
refused when there is none; the refusal is ignored. The messages that wait already are handled
before the withdrawals, and may set routes through the gateway again.

`ManagerNode` is the manager with its inbox: the priority lane, where the `Down` messages come in
and no permits are needed, and the regular lane. A message gives its permit back when it is
received.

* `Cleared`: each route through the gateway that is stored or waits to be set has a withdrawal
  that is accepted, or the last waiting message about it is a withdrawal;
* `no_route_via_iff`: no route is left when the waiting messages have been handled if and only if
  this holds.
-/

namespace Mm1

open Fallible Transition Replay Option List RouteRegistry

namespace RouteRegistry

section Gateways

variable (env : Env) {r r' : RouteRegistry} {c : SetRoute} {key : RouteKey}
  {old : Option RouteMetric} {p : RouteKey × RouteEntry}

/-- A change of the metric keeps the gateways. -/
private theorem gw_of_changeMetric {x : RouteMetric}
    (h : r.changeMetric env c.message c.destination x key = .ok (r', old))
    (hp : p ∈ r'.routeEntries) : ∃ p' ∈ r.routeEntries, p'.2.gw = p.2.gw := by
  obtain ⟨e, -, h⟩ := exists_of_bind_eq_ok h
  by_cases hx : x = e.metric
  · rw [if_pos hx] at h
    obtain ⟨rfl, -⟩ := eq_of_ok_mk h
    exact ⟨p, hp, rfl⟩
  · rw [if_neg hx] at h
    obtain ⟨byDst, -, h⟩ := exists_of_bind_eq_ok h
    obtain ⟨rfl, -⟩ := eq_of_ok_mk h
    obtain ⟨p', hp', rfl⟩ := mem_map.mp hp
    refine ⟨p', hp', ?_⟩
    simp only
    split <;> rfl

/-- A new route is the only one that is added. -/
private theorem gw_of_addRoute {e : RouteEntry} (h : r.addRoute env e = .ok (r', old))
    (hp : p ∈ r'.routeEntries) : p ∈ r.routeEntries ∨ p.2 = e := by
  simp only [addRoute] at h
  split at h
  · obtain ⟨rfl, -⟩ := eq_of_ok_mk h
    rcases eq_or_mem_of_mem_insertIdx hp with rfl | hp
    · exact .inr rfl
    · exact .inl hp
  · contradiction

/-- A removal adds no route. -/
private theorem gw_of_removeRoute
    (h : r.removeRoute env c.message c.destination c.via key = .ok (r', old))
    (hp : p ∈ r'.routeEntries) : p ∈ r.routeEntries := by
  obtain ⟨e, -, h⟩ := exists_of_bind_eq_ok h
  obtain ⟨byDst, -, h⟩ := exists_of_bind_eq_ok h
  obtain ⟨rfl, -⟩ := eq_of_ok_mk h
  exact mem_of_mem_filter hp

/-- A call stores a route through its own gateway only, and only if it has a metric. -/
private theorem gw_of_apply {answer : Except SetRouteError (Option RouteMetric)}
    (h : r.apply env c = .ok (r', answer)) (hp : p ∈ r'.routeEntries) :
    (∃ p' ∈ r.routeEntries, p'.2.gw = p.2.gw) ∨ p.2.gw = c.via ∧ c.metric ≠ none := by
  rw [apply, setRoute] at h
  split at h
  · obtain ⟨rfl, -⟩ := eq_of_ok_mk h
    exact .inl ⟨p, hp, rfl⟩
  · obtain ⟨⟨r₁, old⟩, hupdate, hlast⟩ := exists_of_bind_eq_ok h
    obtain ⟨rfl, -⟩ := eq_of_ok_mk hlast
    rw [update.eq_def] at hupdate
    split at hupdate
    · obtain ⟨rfl, -⟩ := eq_of_ok_mk hupdate
      exact .inl ⟨p, hp, rfl⟩
    · exact .inl (gw_of_changeMetric env hupdate hp)
    case h_3 x hmetric _ =>
      rcases gw_of_addRoute env hupdate hp with hp | heq
      · exact .inl ⟨p, hp, rfl⟩
      · rw [hmetric, heq]
        exact .inr ⟨rfl, some_ne_none _⟩
    · exact .inl ⟨p, gw_of_removeRoute env hupdate hp, rfl⟩

end Gateways

end RouteRegistry

/-- What the manager receives on its regular lane. -/
inductive ManagerMsg
  | setRoute (c : SetRoute)
  | registerLocalSubnet (net : NetAddress)
  /-- with the keys of the inbound types of the protocol -/
  | registerProtocol (inbound : List LocalTypeKey)
  | subscribeToRoutes (deliverTo : Address)
  /-- the requests that neither read nor write routes -/
  | other
  deriving DecidableEq

/-- A message of the regular lane. -/
structure Waiting where
  msg : ManagerMsg
  /-- it was sent to the address of the actor and holds one of its permits; a message to
  `MULTINODE_MANAGER` holds one of that address -/
  own : Bool
  deriving DecidableEq

/-- The manager with its inbox. -/
structure ManagerNode where
  manager : Manager
  /-- the `Down` messages, with the watch and the peer -/
  inboxPriority : List (WatchRef × Address)
  inboxRegular : List Waiting
  /-- the free permits of the address of the actor -/
  permits : ℕ
  /-- how many messages of the regular lane have been received -/
  received : ℕ
  deriving DecidableEq

namespace ManagerNode

/-- What the manager tells itself. -/
def ownSetRoute (c : SetRoute) : Waiting := ⟨.setRoute c, true⟩

/-- `ctx.tell(ctx.address(), set_route)`: `none` if there is no permit. -/
def tellSelf (s : ManagerNode) (c : SetRoute) : Option ManagerNode :=
  if s.permits = 0 then none
  else some { s with
    permits := s.permits - 1
    inboxRegular := s.inboxRegular ++ [ownSetRoute c] }

/-- `OnMessage<Down>`: that a tell is refused is ignored. -/
def onDown (s : ManagerNode) (watchRef : WatchRef) (peer : Address) : ManagerNode :=
  let (manager, withdrawals) := s.manager.onDown watchRef peer
  withdrawals.foldl (fun s c => (s.tellSelf c).getD s) { s with manager }

/-- The routes of the local subnets for the inbound types of a protocol. -/
def localRoutes (s : Manager) (inbound : List LocalTypeKey) : List SetRoute :=
  inbound.flatMap fun key =>
    s.localSubnets.map fun (net, _) => ⟨key, NetAddress.ofRange net, none, some 0⟩

/-- Handles a message of the regular lane. A panic, or a tell that is refused while a protocol is
registered, ends the manager. -/
def onMessage (env : Env) (s : ManagerNode) (reply : Reply) : ManagerMsg → Option ManagerNode
  | .setRoute c =>
    match s.manager.onSetRoute env c reply with
    | .ok (manager, _) => some { s with manager }
    | .error _ => none
  | .registerLocalSubnet net => some { s with manager := s.manager.onRegisterLocalSubnet net }
  | .registerProtocol inbound => (localRoutes s.manager inbound).foldlM tellSelf s
  | .subscribeToRoutes deliverTo =>
    some { s with manager := (s.manager.onSubscribeToRoutes deliverTo reply).1 }
  | .other => some s

/-- What can happen to the manager and its inbox. -/
inductive Act
  /-- a `Down` message arrives -/
  | down (watchRef : WatchRef) (peer : Address)
  /-- a message arrives on the regular lane -/
  | arrive (msg : ManagerMsg) (own : Bool)
  /-- the manager handles the next message -/
  | receive (reply : Reply)
  deriving DecidableEq

/-- The tells of a `Down` are one step. A message that arrives between two of them takes a permit as
if it had arrived before the `Down` was handled, so that the same withdrawals are accepted; and its
place among them does not matter when it is not about the gateway. -/
def step (env : Env) (s : ManagerNode) : Act → Option ManagerNode
  | .down watchRef peer => some { s with inboxPriority := s.inboxPriority ++ [(watchRef, peer)] }
  | .arrive msg own =>
    if own then
      if s.permits = 0 then none
      else some { s with
        permits := s.permits - 1
        inboxRegular := s.inboxRegular ++ [⟨msg, true⟩] }
    else some { s with inboxRegular := s.inboxRegular ++ [⟨msg, false⟩] }
  | .receive reply =>
    match s.inboxPriority, s.inboxRegular with
    | (watchRef, peer) :: inboxPriority, _ => some ({ s with inboxPriority }.onDown watchRef peer)
    | [], x :: inboxRegular =>
      { s with
        inboxRegular
        permits := s.permits + if x.own then 1 else 0
        received := s.received + 1 }.onMessage env reply x.msg
    | [], [] => none

/-- The `SetRoute` messages of a lane. -/
def setRoutes (lane : List Waiting) : List SetRoute :=
  lane.filterMap fun x =>
    match x.msg with
    | .setRoute c => some c
    | _ => none

/-- A route through the gateway is withdrawn: its withdrawal is accepted, or the last waiting
message about it is a withdrawal. -/
def Withdrawn (s : ManagerNode) (gw : Address) (m : LocalTypeKey) (n : NetAddress) : Prop :=
  (∃ e ∈ (s.manager.routeRegistry.allRoutesByGw gw).take s.permits, e.1 = m ∧ e.2.1 = n) ∨
    ∃ c ∈ last SetRoute.id (setRoutes s.inboxRegular) (some gw, n, m), c.metric = none

instance (s : ManagerNode) (gw : Address) (m : LocalTypeKey) (n : NetAddress) :
    Decidable (Withdrawn s gw m n) :=
  inferInstanceAs (Decidable (_ ∨ _))

/-- **The condition on the state before the `Down` is handled**: each route through the gateway
that is stored, or that a waiting message is about, is withdrawn. -/
def Cleared (s : ManagerNode) (gw : Address) : Prop :=
  (∀ e ∈ s.manager.routeRegistry.allRoutesByGw gw, Withdrawn s gw e.1 e.2.1) ∧
    ∀ c ∈ setRoutes s.inboxRegular, c.via = some gw → Withdrawn s gw c.message c.destination

instance (s : ManagerNode) (gw : Address) : Decidable (Cleared s gw) :=
  inferInstanceAs (Decidable (_ ∧ _))

/-- No `SetRoute` that names the gateway arrives. -/
def SparesGw (gw : Address) (_ : ManagerNode) : Act → Prop
  | .arrive (.setRoute c) _ => c.via ≠ some gw
  | _ => True

instance (gw : Address) (s : ManagerNode) (a : Act) : Decidable (SparesGw gw s a) := by
  unfold SparesGw
  split
  · infer_instance
  · infer_instance

/-! ### The self-addressed messages -/

variable (env : Env) {s s' : ManagerNode} {a : Act} {gw : Address} {N : Set NetAddress}
  {cs : List SetRoute} {reply : Reply} {c : SetRoute} {r r' : RouteRegistry} {msg : ManagerMsg}

private theorem setRoutes_append (lane lane' : List Waiting) :
    setRoutes (lane ++ lane') = setRoutes lane ++ setRoutes lane' := filterMap_append

private theorem setRoutes_ownSetRoute (cs : List SetRoute) :
    setRoutes (cs.map ownSetRoute) = cs := by
  rw [setRoutes, filterMap_map]
  exact filterMap_some

/-- The tells that are accepted are as many as there are permits. -/
private theorem foldl_tellSelf (s : ManagerNode) (cs : List SetRoute) :
    cs.foldl (fun s c => (s.tellSelf c).getD s) s =
      { s with
        permits := s.permits - cs.length
        inboxRegular := s.inboxRegular ++ (cs.take s.permits).map ownSetRoute } := by
  induction cs generalizing s with
  | nil => simp
  | cons c cs ih =>
    rw [foldl_cons, tellSelf]
    by_cases hp : s.permits = 0
    · rw [if_pos hp, getD_none, ih]
      simp [hp]
    · obtain ⟨p, hp'⟩ := Nat.exists_eq_succ_of_ne_zero hp
      rw [if_neg hp, getD_some, ih]
      simp [hp']

private theorem of_foldlM_tellSelf (h : cs.foldlM tellSelf s = some s') :
    s' = { s with
      permits := s.permits - cs.length
      inboxRegular := s.inboxRegular ++ cs.map ownSetRoute } := by
  induction cs generalizing s with
  | nil =>
    obtain rfl := some.inj h
    simp
  | cons c cs ih =>
    rw [foldlM_cons] at h
    obtain ⟨s₁, hs₁, hrest⟩ := bind_eq_some_iff.mp h
    rw [tellSelf] at hs₁
    split at hs₁
    · contradiction
    · obtain rfl := some.inj hs₁
      rw [ih hrest]
      simp [Nat.sub_sub, Nat.add_comm]

/-! ### One step -/

/-- What handling a message does to the registry: only a `SetRoute` calls it, and what is refused
changes nothing. -/
inductive Handled (env : Env) (r : RouteRegistry) : RouteRegistry → ManagerMsg → Prop
  | accepted {r' : RouteRegistry} {c : SetRoute} {old : Option RouteMetric}
      (h : r.apply env c = .ok (r', .ok old)) : Handled env r r' (.setRoute c)
  | refused {r₁ : RouteRegistry} {c : SetRoute} {e : SetRouteError}
      (h : r.apply env c = .ok (r₁, .error e)) : Handled env r r (.setRoute c)
  | other {msg : ManagerMsg} (h : ∀ c, msg ≠ .setRoute c) : Handled env r r msg

/-- A message that sets no route through the gateway. -/
def Harmless (gw : Address) (msg : ManagerMsg) : Prop :=
  ∀ c, msg = .setRoute c → c.via = some gw → c.metric = none

/-- A route is set. -/
private theorem Handled.of_onSetRoute {m m' : Manager} {told : List (Address × SetRoute)}
    (h : m.onSetRoute env c reply = .ok (m', told)) :
    Handled env m.routeRegistry m'.routeRegistry (.setRoute c) := by
  obtain ⟨⟨r₁, answer⟩, happly, hrest⟩ := exists_of_bind_eq_ok h
  have happly' : m.routeRegistry.apply env c = .ok (r₁, answer) := by
    cases hr : m.routeRegistry.apply env c with
    | ok p => simpa [hr, Except.mapError] using happly
    | error e =>
      rw [hr] at happly
      contradiction
  cases answer with
  | error e =>
    obtain ⟨rfl, -⟩ := eq_of_ok_mk hrest
    exact .refused happly'
  | ok old =>
    obtain ⟨workers, -, hlast⟩ := exists_of_bind_eq_ok hrest
    obtain ⟨rfl, -⟩ := eq_of_ok_mk hlast
    exact .accepted happly'

private theorem onDown_eq (s : ManagerNode) (watchRef : WatchRef) (peer : Address) :
    s.onDown watchRef peer =
      { s with
        manager := (s.manager.onDown watchRef peer).1
        permits := s.permits - (s.manager.onDown watchRef peer).2.length
        inboxRegular := s.inboxRegular ++
          ((s.manager.onDown watchRef peer).2.take s.permits).map ownSetRoute } :=
  foldl_tellSelf _ _

/-- The manager withdraws the routes through the peer, if it watched the peer as a gateway. -/
private theorem withdrawals_eq (m : Manager) (watchRef : WatchRef) (peer : Address) :
    (m.onDown watchRef peer).1.routeRegistry = m.routeRegistry ∧
      (m.onDown watchRef peer).2 = if m.routeGws.any (·.1 = watchRef) then
        (m.routeRegistry.allRoutesByGw peer).map fun e => ⟨e.1, e.2.1, some peer, none⟩
        else [] := by
  rw [Manager.onDown]
  split
  · exact ⟨rfl, rfl⟩
  · exact ⟨rfl, rfl⟩

private theorem harmless_of_metric (h : c.metric = none) : Harmless gw (ownSetRoute c).msg := by
  intro c' heq _
  rwa [← ManagerMsg.setRoute.inj heq]

private theorem harmless_of_via (h : c.via ≠ some gw) : Harmless gw (.setRoute c) := by
  intro c' heq hvia
  rw [← ManagerMsg.setRoute.inj heq] at hvia
  exact absurd hvia h

private theorem harmless_withdrawals (m : Manager) (watchRef : WatchRef) (peer : Address) (k : ℕ) :
    ∀ y ∈ ((m.onDown watchRef peer).2.take k).map ownSetRoute, Harmless gw y.msg := by
  intro y hy
  obtain ⟨c, hc, rfl⟩ := mem_map.mp hy
  refine harmless_of_metric ?_
  have hc := mem_of_mem_take hc
  rw [(withdrawals_eq m watchRef peer).2] at hc
  split at hc
  · obtain ⟨e, -, rfl⟩ := mem_map.mp hc
    rfl
  · contradiction

/-- What handling a message of the regular lane does. -/
private theorem onMessage_cases (h : s.onMessage env reply msg = some s') :
    ∃ new, (∀ y ∈ new, Harmless gw y.msg) ∧ s'.inboxRegular = s.inboxRegular ++ new ∧
      s'.received = s.received ∧
      Handled env s.manager.routeRegistry s'.manager.routeRegistry msg := by
  have hnil : ∀ y ∈ ([] : List Waiting), Harmless gw y.msg := fun y hy =>
    absurd hy not_mem_nil
  match msg, h with
  | .setRoute c, h =>
    rw [onMessage] at h
    split at h
    case h_1 manager told hset =>
      obtain rfl := some.inj h
      exact ⟨[], hnil, (append_nil _).symm, rfl, .of_onSetRoute env hset⟩
    case h_2 => contradiction
  | .registerLocalSubnet net, h =>
    obtain rfl := some.inj h
    obtain ⟨locals, heq⟩ := Manager.onRegisterLocalSubnet_eq s.manager net
    refine ⟨[], hnil, (append_nil _).symm, rfl, ?_⟩
    rw [heq]
    exact .other (by simp)
  | .registerProtocol inbound, h =>
    rw [of_foldlM_tellSelf h]
    refine ⟨_, fun y hy => ?_, rfl, rfl, .other (by simp)⟩
    obtain ⟨c, hc, rfl⟩ := mem_map.mp hy
    obtain ⟨key, -, hc⟩ := mem_flatMap.mp hc
    obtain ⟨l, -, rfl⟩ := mem_map.mp hc
    exact harmless_of_via (some_ne_none _).symm
  | .subscribeToRoutes deliverTo, h =>
    obtain rfl := some.inj h
    exact ⟨[], hnil, (append_nil _).symm, rfl, .other (by simp)⟩
  | .other, h =>
    obtain rfl := some.inj h
    exact ⟨[], hnil, (append_nil _).symm, rfl, .other (by simp)⟩

/-- **What a step does**: it adds harmless messages to the regular lane, and may receive one. -/
theorem step_cases (hok : SparesGw gw s a) (h : step env s a = some s') :
    ∃ new, (∀ y ∈ new, Harmless gw y.msg) ∧
      ((s'.inboxRegular = s.inboxRegular ++ new ∧ s'.received = s.received ∧
          s'.manager.routeRegistry = s.manager.routeRegistry) ∨
        ∃ x lane, s.inboxRegular = x :: lane ∧ s'.inboxRegular = lane ++ new ∧
          s'.received = s.received + 1 ∧
          Handled env s.manager.routeRegistry s'.manager.routeRegistry x.msg) := by
  match a, h with
  | .down watchRef peer, h =>
    obtain rfl := some.inj h
    exact ⟨[], by simp, .inl ⟨(append_nil _).symm, rfl, rfl⟩⟩
  | .arrive msg own, h =>
    have hmsg : ∀ own, ∀ y ∈ [Waiting.mk msg own], Harmless gw y.msg := by
      intro own y hy c heq hvia
      rw [mem_singleton.mp hy] at heq
      obtain rfl : msg = .setRoute c := heq
      exact absurd hvia hok
    rw [step] at h
    split at h
    · split at h
      · contradiction
      · obtain rfl := some.inj h
        exact ⟨_, hmsg true, .inl ⟨rfl, rfl, rfl⟩⟩
    · obtain rfl := some.inj h
      exact ⟨_, hmsg false, .inl ⟨rfl, rfl, rfl⟩⟩
  | .receive reply, h =>
    rw [step] at h
    split at h
    case h_1 watchRef peer rest lane _ _ =>
      obtain rfl := some.inj h
      rw [onDown_eq]
      exact ⟨_, harmless_withdrawals _ _ _ _, .inl ⟨rfl, rfl, (withdrawals_eq ..).1⟩⟩
    case h_2 x lane _ hlane =>
      obtain ⟨new, hnew, hreg, hrec, hh⟩ := onMessage_cases env h
      exact ⟨new, hnew, .inr ⟨x, lane, hlane, hreg, hrec, hh⟩⟩
    case h_3 => contradiction

/-! ### The registry -/

/-- A harmless message stores no route through the gateway, whatever the registry is. -/
private theorem Handled.spares (h : Handled env r r' msg) (hmsg : Harmless gw msg)
    (hr : ∀ p ∈ r.routeEntries, p.2.gw ≠ some gw) : ∀ p ∈ r'.routeEntries, p.2.gw ≠ some gw := by
  cases h with
  | accepted happly =>
    intro p hp hvia
    rcases gw_of_apply env happly hp with ⟨p', hp', heq⟩ | ⟨heq, hmetric⟩
    · exact hr p' hp' (heq.trans hvia)
    · exact hmetric (hmsg _ rfl (heq.symm.trans hvia))
  | refused | other => exact hr

/-- A message whose destination fits writes the table. -/
private theorem Handled.table {x : Waiting} (h : Handled env r r' x.msg) (hA : Apart N)
    (hN : r.NetsIn N) (hinv : r.Inv) (hx : ∀ c ∈ setRoutes [x], c.destination ∈ N) :
    r'.Inv ∧ r'.NetsIn N ∧
      r'.table = replay SetRoute.id SetRoute.metric r.table (setRoutes [x]) := by
  obtain ⟨msg, own⟩ := x
  -- what `set_route` does with a destination that fits
  have hspec := fun c hc => apply_spec env (c := c) hA hN hinv hc
  cases h with
  | @accepted _ c _ happly =>
    obtain ⟨r₂, happly₂, hinv₂, hN₂, htable⟩ := hspec c (hx c (mem_singleton.mpr rfl))
    obtain ⟨rfl, -⟩ := Prod.mk.injEq .. |>.mp (Except.ok.inj (happly.symm.trans happly₂))
    exact ⟨hinv₂, hN₂, htable⟩
  | @refused _ c _ happly =>
    obtain ⟨r₂, happly₂, -⟩ := hspec c (hx c (mem_singleton.mpr rfl))
    have hne := (Prod.mk.injEq .. |>.mp (Except.ok.inj (happly.symm.trans happly₂))).2
    contradiction
  | other hother =>
    have hnil : setRoutes [⟨msg, own⟩] = [] := by
      rw [setRoutes, filterMap_cons_none, filterMap_nil]
      cases msg with
      | setRoute c => exact absurd rfl (hother c)
      | _ => rfl
    rw [hnil]
    exact ⟨hinv, hN, rfl⟩

/-- The table has no route through the gateway. -/
def Avoids (gw : Address) (M : Table) : Prop := ∀ m n, M (some gw, n, m) = none

private theorem avoids_iff {r : RouteRegistry} (hA : Apart N) (hN : r.NetsIn N) (hinv : r.Inv) :
    Avoids gw r.table ↔ ∀ p ∈ r.routeEntries, p.2.gw ≠ some gw := by
  constructor
  · rintro h ⟨key, m, n, g, x⟩ hp rfl
    exact some_ne_none _ (((hinv.table_eq_some_iff hA hN).mpr ⟨key, hp⟩).symm.trans (h m n))
  · intro h m n
    refine eq_none_iff_forall_ne_some.mpr fun x hx => ?_
    obtain ⟨key, hp⟩ := (hinv.table_eq_some_iff hA hN).mp hx
    exact h _ hp rfl

/-! ### Handling what waits -/

/-- The messages `W` of those that waited are left, and behind them are harmless ones; when `W` is
handled the table will be `T`. -/
structure Window (N : Set NetAddress) (gw : Address) (total : ℕ) (T : Table) (s : ManagerNode)
    (W new : List Waiting) : Prop where
  lane : s.inboxRegular = W ++ new
  count : s.received + W.length = total
  harmless : ∀ y ∈ new, Harmless gw y.msg
  inv : s.manager.routeRegistry.Inv
  netsIn : s.manager.routeRegistry.NetsIn N
  destinations : ∀ c ∈ setRoutes W, c.destination ∈ N
  table : replay SetRoute.id SetRoute.metric s.manager.routeRegistry.table (setRoutes W) = T

/-- More than what waited has been handled. -/
structure Past (gw : Address) (total : ℕ) (T : Table) (s : ManagerNode) : Prop where
  count : total < s.received
  harmless : ∀ y ∈ s.inboxRegular, Harmless gw y.msg
  avoids : Avoids gw T → ∀ p ∈ s.manager.routeRegistry.routeEntries, p.2.gw ≠ some gw

section Runs

variable {total : ℕ} {T : Table} {W new : List Waiting}

/-- A step inside of the window, or the one that leaves it. -/
private theorem Window.step (hA : Apart N) (h : Window N gw total T s W new) (hok : SparesGw gw s a)
    (hs : step env s a = some s') :
    (∃ W new, Window N gw total T s' W new) ∨ Past gw total T s' := by
  obtain ⟨new', hnew', ⟨hlane, hrec, hreg⟩ | ⟨x, lane, hx, hlane, hrec, hh⟩⟩ :=
    step_cases env hok hs
  · refine .inl ⟨W, new ++ new', ?_, by rw [hrec, h.count], ?_, hreg ▸ h.inv, hreg ▸ h.netsIn,
      h.destinations, hreg ▸ h.table⟩
    · rw [hlane, h.lane, append_assoc]
    · exact forall_mem_append.mpr ⟨h.harmless, hnew'⟩
  · rw [h.lane] at hx
    match W, h, hx with
    | x' :: W', h, hx =>
      rw [cons_append] at hx
      obtain ⟨rfl, rfl⟩ := cons_eq_cons.mp hx
      have hsplit : setRoutes (x' :: W') = setRoutes [x'] ++ setRoutes W' :=
        setRoutes_append [x'] W'
      have hdest := h.destinations
      rw [hsplit, forall_mem_append] at hdest
      obtain ⟨hinv, hN, htable⟩ := hh.table env hA h.netsIn h.inv hdest.1
      refine .inl ⟨W', new ++ new', ?_, ?_, ?_, hinv, hN, hdest.2, ?_⟩
      · rw [hlane, append_assoc]
      · have hcount := h.count
        rw [length_cons] at hcount
        omega
      · exact forall_mem_append.mpr ⟨h.harmless, hnew'⟩
      · rw [htable, ← replay_append, ← hsplit, h.table]
    | [], h, hx =>
      -- the first message behind those that waited
      rw [nil_append] at hx
      have hharmless := h.harmless
      rw [hx, forall_mem_cons] at hharmless
      refine .inr ⟨?_, ?_, fun hT => ?_⟩
      · have hcount := h.count
        rw [length_nil] at hcount
        omega
      · rw [hlane]
        exact forall_mem_append.mpr ⟨hharmless.2, hnew'⟩
      · have htable : s.manager.routeRegistry.table = T := h.table
        rw [← htable, avoids_iff hA h.netsIn h.inv] at hT
        exact hh.spares env hharmless.1 hT

/-- A step after the window. -/
private theorem Past.step (h : Past gw total T s) (hok : SparesGw gw s a)
    (hs : step env s a = some s') : Past gw total T s' := by
  obtain ⟨new', hnew', ⟨hlane, hrec, hreg⟩ | ⟨x, lane, hx, hlane, hrec, hh⟩⟩ :=
    step_cases env hok hs
  · refine ⟨hrec ▸ h.count, ?_, hreg ▸ h.avoids⟩
    rw [hlane]
    exact forall_mem_append.mpr ⟨h.harmless, hnew'⟩
  · have hharmless := h.harmless
    rw [hx, forall_mem_cons] at hharmless
    refine ⟨?_, ?_, fun hT => hh.spares env hharmless.1 (h.avoids hT)⟩
    · have hcount := h.count
      omega
    · rw [hlane]
      exact forall_mem_append.mpr ⟨hharmless.2, hnew'⟩

/-- The run lemma. -/
private theorem Window.reaches (hA : Apart N) (h : Window N gw total T s W new)
    (hr : Reaches (ManagerNode.step env) (SparesGw gw) s s') :
    (∃ W new, Window N gw total T s' W new) ∨ Past gw total T s' := by
  refine hr.invariant (P := fun s => (∃ W new, Window N gw total T s W new) ∨ Past gw total T s)
    (.inl ⟨W, new, h⟩) fun {s a s'} hs hok hstep => ?_
  rcases hs with ⟨W, new, hw⟩ | hp
  · exact hw.step env hA hok hstep
  · exact .inr (hp.step env hok hstep)

end Runs

/-! ### The condition -/

/-- The withdrawals that the manager tells itself. -/
def withdrawals (r : RouteRegistry) (gw : Address) : List SetRoute :=
  (r.allRoutesByGw gw).map fun e => ⟨e.1, e.2.1, some gw, none⟩

section Condition

variable (hA : Apart N) (hN : s.manager.routeRegistry.NetsIn N)
  (hinv : s.manager.routeRegistry.Inv)

include hA hN hinv

/-- One route, after the waiting messages and the withdrawals that are accepted. -/
private theorem replay_eq_none_iff (m : LocalTypeKey) (n : NetAddress) :
    replay SetRoute.id SetRoute.metric s.manager.routeRegistry.table
        (setRoutes s.inboxRegular ++ (withdrawals s.manager.routeRegistry gw).take s.permits)
        (some gw, n, m) = none ↔
      ((∃ x, (m, n, x) ∈ s.manager.routeRegistry.allRoutesByGw gw) ∨
        (∃ c ∈ setRoutes s.inboxRegular, c.id = (some gw, n, m)) → Withdrawn s gw m n) := by
  have hstored : (∃ x, (m, n, x) ∈ s.manager.routeRegistry.allRoutesByGw gw) ↔
      s.manager.routeRegistry.table (some gw, n, m) ≠ none := by
    simp only [mem_allRoutesByGw_iff, ← hinv.table_eq_some_iff hA hN, ne_none_iff_exists']
  have htake : (withdrawals s.manager.routeRegistry gw).take s.permits =
      ((s.manager.routeRegistry.allRoutesByGw gw).take s.permits).map fun e =>
        (⟨e.1, e.2.1, some gw, none⟩ : SetRoute) := map_take.symm
  rw [replay_apply, last_append, htake]
  cases hD : last SetRoute.id (((s.manager.routeRegistry.allRoutesByGw gw).take s.permits).map
      fun e => (⟨e.1, e.2.1, some gw, none⟩ : SetRoute)) (some gw, n, m) with
  | some c =>
    -- the withdrawal is accepted, and comes last
    obtain ⟨hmem, hid⟩ := mem_of_last hD
    obtain ⟨e, he, rfl⟩ := mem_map.mp hmem
    simp only [SetRoute.id, Prod.mk.injEq, true_and] at hid
    exact iff_of_true rfl fun _ => .inl ⟨e, he, hid.2, hid.1⟩
  | none =>
    have hnot : ¬ ∃ e ∈ (s.manager.routeRegistry.allRoutesByGw gw).take s.permits,
        e.1 = m ∧ e.2.1 = n := by
      rintro ⟨e, he, rfl, rfl⟩
      exact last_eq_none_iff.mp hD _ (mem_map.mpr ⟨e, he, rfl⟩) rfl
    rw [none_or, Withdrawn, or_iff_right hnot, hstored]
    cases hW : last SetRoute.id (setRoutes s.inboxRegular) (some gw, n, m) with
    | some c =>
      have hwaits : ∃ c ∈ setRoutes s.inboxRegular, c.id = (some gw, n, m) := ⟨c, mem_of_last hW⟩
      simp [hwaits]
    | none =>
      have hwaits : ¬ ∃ c ∈ setRoutes s.inboxRegular, c.id = (some gw, n, m) := by
        rintro ⟨c, hc, hid⟩
        exact last_eq_none_iff.mp hW c hc hid
      simp [hwaits]

/-- The table after the waiting messages and the withdrawals that are accepted has no route
through the gateway if and only if the condition holds. -/
private theorem avoids_replay_iff :
    Avoids gw (replay SetRoute.id SetRoute.metric s.manager.routeRegistry.table
      (setRoutes s.inboxRegular ++ (withdrawals s.manager.routeRegistry gw).take s.permits)) ↔
      Cleared s gw := by
  simp only [Avoids, replay_eq_none_iff hA hN hinv]
  constructor
  · refine fun h => ⟨fun e he => h _ _ (.inl ⟨_, he⟩), fun c hc hvia => h _ _ (.inr ⟨c, hc, ?_⟩)⟩
    rw [SetRoute.id, hvia]
  · rintro ⟨hstored, hwaits⟩ m n (⟨x, hx⟩ | ⟨c, hc, hid⟩)
    · exact hstored _ hx
    · simp only [SetRoute.id, Prod.mk.injEq] at hid
      obtain ⟨hvia, rfl, rfl⟩ := hid
      exact hwaits c hc hvia

end Condition

/-- What waits after the `Down` of a gateway is handled: what waited before, and the withdrawals
that are accepted. -/
private theorem window_of_down {s₁ : ManagerNode} {watchRef : WatchRef}
    {rest : List (WatchRef × Address)} (hinv : s.manager.routeRegistry.Inv)
    (hN : s.manager.routeRegistry.NetsIn N)
    (hwaits : ∀ c ∈ setRoutes s.inboxRegular, c.destination ∈ N)
    (hdown : s.inboxPriority = (watchRef, gw) :: rest) (hgw : (watchRef, gw) ∈ s.manager.routeGws)
    (hstep : step env s (.receive reply) = some s₁) :
    Window N gw (s₁.received + s₁.inboxRegular.length)
      (replay SetRoute.id SetRoute.metric s.manager.routeRegistry.table
        (setRoutes s.inboxRegular ++ (withdrawals s.manager.routeRegistry gw).take s.permits))
      s₁ s₁.inboxRegular [] := by
  have hs₁ : { s with inboxPriority := rest }.onDown watchRef gw = s₁ := by
    simpa [step, hdown] using hstep
  obtain ⟨hreg, htold⟩ := withdrawals_eq s.manager watchRef gw
  rw [if_pos (any_eq_true.mpr ⟨_, hgw, by simp⟩)] at htold
  rw [onDown_eq] at hs₁
  have hlane : s₁.inboxRegular = s.inboxRegular ++
      ((withdrawals s.manager.routeRegistry gw).take s.permits).map ownSetRoute := by
    rw [← hs₁, withdrawals, ← htold]
  have hreg₁ : s₁.manager.routeRegistry = s.manager.routeRegistry := by rw [← hs₁, hreg]
  have hroutes : setRoutes s₁.inboxRegular =
      setRoutes s.inboxRegular ++ (withdrawals s.manager.routeRegistry gw).take s.permits := by
    rw [hlane, setRoutes_append, setRoutes_ownSetRoute]
  refine ⟨(append_nil _).symm, rfl, fun y hy => absurd hy not_mem_nil, hreg₁ ▸ hinv,
    hreg₁ ▸ hN, ?_, by rw [hreg₁, hroutes]⟩
  rw [hroutes, forall_mem_append]
  refine ⟨hwaits, fun c hc => ?_⟩
  obtain ⟨e, he, rfl⟩ := mem_map.mp (mem_of_mem_take hc)
  obtain ⟨key, hmem⟩ := mem_allRoutesByGw_iff.mp he
  exact hN _ hmem

/-- **Withdrawing the routes through a gateway.** The `Down` of a gateway is handled, which gives
`s₁`, and `s'` is any later state, with no `SetRoute` arriving that names the gateway. At the
moment when the messages that waited in `s₁` have been received, no route through the gateway is
left if and only if the condition holds; and if it holds, none is left at any time after that. -/
theorem no_route_via_iff {s₁ : ManagerNode} {watchRef : WatchRef}
    {rest : List (WatchRef × Address)} {reply : Reply} (hA : Apart N)
    (hinv : s.manager.routeRegistry.Inv) (hN : s.manager.routeRegistry.NetsIn N)
    (hwaits : ∀ c ∈ setRoutes s.inboxRegular, c.destination ∈ N)
    (hdown : s.inboxPriority = (watchRef, gw) :: rest)
    (hgw : (watchRef, gw) ∈ s.manager.routeGws) (hstep : step env s (.receive reply) = some s₁)
    (hr : Reaches (step env) (SparesGw gw) s₁ s') :
    (s'.received = s₁.received + s₁.inboxRegular.length →
      ((∀ p ∈ s'.manager.routeRegistry.routeEntries, p.2.gw ≠ some gw) ↔ Cleared s gw)) ∧
    (s₁.received + s₁.inboxRegular.length ≤ s'.received → Cleared s gw →
      ∀ p ∈ s'.manager.routeRegistry.routeEntries, p.2.gw ≠ some gw) := by
  have hwindow := window_of_down env hinv hN hwaits hdown hgw hstep
  rw [← avoids_replay_iff hA hN hinv]
  rcases hwindow.reaches env hA hr with ⟨W, new, hw⟩ | hp
  · -- those that waited are received when nothing is left of them
    have hdone : s₁.received + s₁.inboxRegular.length ≤ s'.received →
        s'.manager.routeRegistry.table = replay SetRoute.id SetRoute.metric
          s.manager.routeRegistry.table (setRoutes s.inboxRegular ++
            (withdrawals s.manager.routeRegistry gw).take s.permits) := by
      intro hle
      have hcount := hw.count
      obtain rfl : W = [] := eq_nil_of_length_eq_zero (by omega)
      exact hw.table
    refine ⟨fun heq => ?_, fun hle hclear => ?_⟩
    · rw [← hdone heq.ge, avoids_iff hA hw.netsIn hw.inv]
    · rw [← hdone hle] at hclear
      exact (avoids_iff hA hw.netsIn hw.inv).mp hclear
  · exact ⟨fun heq => absurd hp.count (by omega), fun _ hclear => hp.avoids hclear⟩

/-- The manager at its start, with an inbox of the given size. -/
def start (inboxSize : ℕ) : ManagerNode := ⟨.init, [], [], inboxSize, 0⟩

/-- A gateway sets a route and goes down while another message waits. -/
def downWaits (inboxSize : ℕ) : Option ManagerNode :=
  exec (step plainEnv) (fun _ _ => True) (start inboxSize)
    [.arrive (.setRoute ⟨sampleKey, netF1, some ⟨0xa101#64⟩, some 1⟩) true,
      .receive ⟨⟨0xb001#64⟩, 7⟩, .arrive .other true, .down 7 ⟨0xa101#64⟩]

/-- With two permits the withdrawal is accepted. -/
theorem no_route_via_iff_two_permits :
    ∃ s s₁ s', downWaits 2 = some s ∧ step plainEnv s (.receive ⟨⟨0xb001#64⟩, 7⟩) = some s₁ ∧
      s₁.inboxRegular.length = 2 ∧
      Reaches (step plainEnv) (SparesGw ⟨0xa101#64⟩) s₁ s' ∧
      s'.received = s₁.received + s₁.inboxRegular.length ∧
      ∀ p ∈ s'.manager.routeRegistry.routeEntries, p.2.gw ≠ some ⟨0xa101#64⟩ := by
  let s := (downWaits 2).get (by decide)
  let s₁ := (step plainEnv s (.receive ⟨⟨0xb001#64⟩, 7⟩)).get (by decide)
  have hnext : step plainEnv s (.receive ⟨⟨0xb001#64⟩, 7⟩) = some s₁ := (some_get _).symm
  have hreach : Reaches (step plainEnv) (SparesGw ⟨0xa101#64⟩) s₁ _ :=
    reaches_get [.receive ⟨⟨0xb001#64⟩, 7⟩, .receive ⟨⟨0xb001#64⟩, 7⟩] (by decide)
  refine ⟨s, s₁, _, (some_get _).symm, hnext, by decide, hreach, by decide, ?_⟩
  have hA : Apart {netF1} := by
    refine apart_of_disjoint ?_ ?_
    · rintro n rfl
      decide
    · rintro n rfl n' rfl
      exact .inl rfl
  obtain ⟨r, hr, hinv, hN, -⟩ := apply_spec plainEnv
    (c := ⟨sampleKey, netF1, some ⟨0xa101#64⟩, some 1⟩)
    hA (fun p hp => absurd hp not_mem_nil) inv_empty rfl
  have hreg : (RouteRegistry.apply plainEnv .empty
      ⟨sampleKey, netF1, some ⟨0xa101#64⟩, some 1⟩).toOption.map Prod.fst =
        some s.manager.routeRegistry := by decide
  rw [hr] at hreg
  obtain rfl : r = s.manager.routeRegistry := some.inj hreg
  have hdown : s.inboxPriority = [(7, ⟨0xa101#64⟩)] := by decide
  refine ((no_route_via_iff plainEnv hA hinv hN ?_ hdown ?_ hnext hreach).1 ?_).mpr ?_
  all_goals decide

/-- With one permit, which the waiting message holds, the withdrawal is refused and the route is
left. -/
theorem withdrawal_refused :
    ∃ s s₁ s', downWaits 1 = some s ∧
      s.inboxPriority = [(7, ⟨0xa101#64⟩)] ∧ (7, ⟨0xa101#64⟩) ∈ s.manager.routeGws ∧
      step plainEnv s (.receive ⟨⟨0xb001#64⟩, 7⟩) = some s₁ ∧
      Reaches (step plainEnv) (SparesGw ⟨0xa101#64⟩) s₁ s' ∧
      s'.received = s₁.received + s₁.inboxRegular.length ∧ s'.inboxPriority = [] ∧
      ∃ p ∈ s'.manager.routeRegistry.routeEntries, p.2.gw = some ⟨0xa101#64⟩ := by
  refine ⟨(downWaits 1).get (by decide), _, _, (some_get _).symm, by decide, by decide,
    (some_get (by decide)).symm, reaches_get [.receive ⟨⟨0xb001#64⟩, 7⟩] (by decide), ?_⟩
  decide

end ManagerNode

end Mm1
