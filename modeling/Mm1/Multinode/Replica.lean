import Mm1.Lib.Replay
import Mm1.Multinode.Connection
import Mm1.Multinode.Manager

/-!
# The routes of a connection

A connection asks the manager for its routes (`SubscribeToRoutes`). The manager answers with a
snapshot and from then on tells the connection every `SetRoute` it handles. The answer goes to a
fork of the connection, the updates to its main context, and the connection reads the snapshot
before any update, whatever the order in which they arrive.

The updates that are told and not handled yet are kept in the order they were told. The invariant
(`Synced`): what the connection has, after the updates that wait for it, is what the manager has.

* `Inv.step`: one step keeps it;
* `allRoutes_perm_of_reaches`: a connection that has handled the snapshot and all updates has the
  routes of the manager.
-/

namespace Mm1

open Transition Replay Option List Function RouteRegistry

/-- How far a connection has come. -/
inductive ConnStage
  | idle
  /-- the request is under way -/
  | asked
  /-- the answer is under way, or not read yet -/
  | answered (routes : List SetRoute)
  /-- the snapshot has been handled -/
  | running (registry : RouteRegistry)
  deriving DecidableEq

/-- A connection as far as routes are concerned. -/
structure Conn where
  gw : Address
  stage : ConnStage
  /-- the `SetRoute` messages in the inbox of its main context -/
  inbox : List SetRoute
  deriving DecidableEq

namespace Conn

def setStage (c : Conn) (stage : ConnStage) : Conn := { c with stage }

/-- Messages come in. -/
def push (c : Conn) (msgs : List SetRoute) : Conn := { c with inbox := c.inbox ++ msgs }

end Conn

/-- The manager and the connections, by their addresses. -/
structure Replicas where
  manager : Manager
  conns : Address → Conn

namespace Replicas

/-- What can happen. -/
inductive Act
  /-- the manager handles a `SetRoute` -/
  | setRoute (c : SetRoute) (reply : Reply)
  /-- the manager handles a `Down` that is not about a subscriber -/
  | down (watchRef : WatchRef) (peer : Address)
  /-- a connection sends its request -/
  | ask (conn : Address)
  /-- the manager handles the request of a connection -/
  | subscribe (conn : Address) (reply : Reply)
  /-- a connection handles the snapshot -/
  | snapshot (conn : Address)
  /-- a connection handles the next `SetRoute` -/
  | update (conn : Address)
  deriving DecidableEq

/-- The messages told to the connections, each accepted. -/
def post (told : List (Address × SetRoute)) (conns : Address → Conn) (a : Address) : Conn :=
  (conns a).push ((told.filter (·.1 = a)).map Prod.snd)

def setConn (s : Replicas) (a : Address) (c : Conn) : Replicas :=
  { s with conns := update s.conns a c }

/-- The references that `watch` gives are new. -/
def step (env : Env) (s : Replicas) : Act → Option Replicas
  | .setRoute c reply =>
    match s.manager.onSetRoute env c reply with
    | .ok (manager, told) => some ⟨manager, post told s.conns⟩
    | .error _ => none
  | .down watchRef peer =>
    if s.manager.routeSubscribers.any (·.1 = watchRef) then none
    else some { s with manager := (s.manager.onDown watchRef peer).1 }
  | .ask a =>
    match (s.conns a).stage with
    | .idle => some (s.setConn a ((s.conns a).setStage .asked))
    | _ => none
  | .subscribe a reply =>
    match (s.conns a).stage with
    | .asked =>
      if s.manager.routeSubscribers.any (·.1 = reply.watchRef) then none
      else
        let (manager, routes) := s.manager.onSubscribeToRoutes a reply
        some ({ s with manager }.setConn a ((s.conns a).setStage (.answered routes)))
    | _ => none
  | .snapshot a =>
    match (s.conns a).stage with
    | .answered routes =>
      match handleSetRoutes env (s.conns a).gw .empty routes with
      | .ok (registry, _) => some (s.setConn a ((s.conns a).setStage (.running registry)))
      | .error _ => none
    | _ => none
  | .update a =>
    match (s.conns a).stage, (s.conns a).inbox with
    | .running registry, c :: inbox =>
      match handleSetRoutes env (s.conns a).gw registry [c] with
      | .ok (registry, _) => some (s.setConn a ⟨(s.conns a).gw, .running registry, inbox⟩)
      | .error _ => none
    | _, _ => none

/-- The manager with local subnets, and connections with gateways that have not asked yet. -/
def start (locals : List NetAddress) (gws : Address → Address) : Replicas :=
  ⟨.withLocals locals, fun a => ⟨gws a, .idle, []⟩⟩

/-- The destinations of the `SetRoute` messages that the manager handles are in a set. -/
def DestIn (N : Set NetAddress) (_ : Replicas) : Act → Prop
  | .setRoute c _ => c.destination ∈ N
  | _ => True

instance (N : Set NetAddress) [DecidablePred (· ∈ N)] (s : Replicas) :
    (a : Act) → Decidable (DestIn N s a)
  | .setRoute c _ => inferInstanceAs (Decidable (c.destination ∈ N))
  | .down .. => isTrue trivial
  | .ask _ => isTrue trivial
  | .subscribe .. => isTrue trivial
  | .snapshot _ => isTrue trivial
  | .update _ => isTrue trivial

/-! ### One connection -/

variable (env : Env) {N : Set NetAddress} {M : Table} {s s' : Replicas} {a : Act}
  {r : RouteRegistry} {watchRef : WatchRef} {reply : Reply}

/-- **A connection is in step with the table of the manager**: it has not subscribed and nothing
waits for it, or what it has, after the updates that wait, is the table. -/
inductive Synced (N : Set NetAddress) (M : Table) (subscribed : Prop) : Conn → Prop
  | idle (gw : Address) (h : ¬ subscribed) : Synced N M subscribed ⟨gw, .idle, []⟩
  | asked (gw : Address) (h : ¬ subscribed) : Synced N M subscribed ⟨gw, .asked, []⟩
  | answered {gw : Address} {routes inbox : List SetRoute} (h : subscribed)
      (hroutes : ∀ c ∈ routes, c.destination ∈ N) (hinbox : ∀ c ∈ inbox, c.destination ∈ N)
      (htable : replay SetRoute.id SetRoute.metric Table.empty (routes ++ inbox) = M) :
      Synced N M subscribed ⟨gw, .answered routes, inbox⟩
  | running {gw : Address} {r : RouteRegistry} {inbox : List SetRoute} (h : subscribed)
      (hinv : r.Inv) (hN : r.NetsIn N) (hinbox : ∀ c ∈ inbox, c.destination ∈ N)
      (htable : replay SetRoute.id SetRoute.metric r.table inbox = M) :
      Synced N M subscribed ⟨gw, .running r, inbox⟩

/-- The calls of a list, one after the other, are a replay. -/
private theorem setRoutes_fst (M : Table) (cs : List SetRoute) :
    (M.setRoutes cs).1 = replay SetRoute.id SetRoute.metric M cs := by
  induction cs generalizing M with
  | nil => rfl
  | cons c cs ih => exact ih (M.set c)

/-- The connection has a subscription. -/
def Subscribed (m : Manager) (a : Address) : Prop := ∃ w, (w, a) ∈ m.routeSubscribers

/-- What is told to a connection when the manager handles an update: copies of the update, and
some if it has a subscription. -/
private theorem told_spec (m : Manager) (c : SetRoute) (a : Address) (t : List SetRoute)
    (ht : t = ((m.routeSubscribers.map fun (_, subscriber) => (subscriber, c)).filter
      (·.1 = a)).map Prod.snd) : (∀ c' ∈ t, c' = c) ∧ (t ≠ [] ↔ Subscribed m a) := by
  have hmem : ∀ c', c' ∈ t ↔ Subscribed m a ∧ c = c' := by
    intro c'
    simp only [ht, Subscribed, List.mem_map, List.mem_filter, decide_eq_true_eq, Prod.exists]
    constructor
    · rintro ⟨a', c₁, ⟨⟨w, a₁, hw, heq⟩, rfl⟩, rfl⟩
      obtain ⟨rfl, rfl⟩ := Prod.mk.injEq .. |>.mp heq
      exact ⟨⟨w, hw⟩, rfl⟩
    · rintro ⟨⟨w, hw⟩, rfl⟩
      exact ⟨a, c, ⟨⟨w, a, hw, rfl⟩, rfl⟩, rfl⟩
  refine ⟨fun c' hc' => ((hmem c').mp hc').2.symm, fun hne => ?_, fun hsub hnil => ?_⟩
  · obtain ⟨c', hc'⟩ := List.exists_mem_of_ne_nil t hne
    exact ((hmem c').mp hc').1
  · rw [hnil] at hmem
    exact List.not_mem_nil ((hmem c).mpr ⟨hsub, rfl⟩)

section Steps

variable {P : Prop} {conn : Conn} {c : SetRoute}

/-- The manager handles an update and tells it to those who subscribed. -/
private theorem Synced.told (h : Synced N M P conn) (hc : c.destination ∈ N) {t : List SetRoute}
    (hconst : ∀ c' ∈ t, c' = c) (hne : t ≠ [] ↔ P) :
    Synced N (M.set c) P (conn.push t) := by
  have hdest : ∀ {inbox : List SetRoute}, (∀ c ∈ inbox, c.destination ∈ N) →
      ∀ c ∈ inbox ++ t, c.destination ∈ N := fun hinbox =>
    forall_mem_append.mpr ⟨hinbox, fun c' hc' => hconst c' hc' ▸ hc⟩
  have hnil : ¬ P → t = [] := fun hP => by_contra fun ht => hP (hne.mp ht)
  cases h with
  | idle gw hP =>
    rw [hnil hP]
    exact .idle gw hP
  | asked gw hP =>
    rw [hnil hP]
    exact .asked gw hP
  | answered hP hroutes hinbox htable =>
    refine .answered hP hroutes (hdest hinbox) ?_
    rw [← append_assoc, replay_append, htable, replay_of_const hconst (hne.mpr hP)]
    rfl
  | running hP hinv hN hinbox htable =>
    refine .running hP hinv hN (hdest hinbox) ?_
    rw [replay_append, htable, replay_of_const hconst (hne.mpr hP)]
    rfl

/-- The snapshot rebuilds the table. -/
private theorem replay_snapshot (hA : Apart N) (hN : r.NetsIn N) (hinv : r.Inv) :
    (∀ c ∈ r.allRoutes.map SetRoute.ofRoute, c.destination ∈ N) ∧
      replay SetRoute.id SetRoute.metric Table.empty (r.allRoutes.map SetRoute.ofRoute) =
        r.table := by
  refine ⟨fun c hc => ?_, replay_listing (fun c hc => ?_) fun k hk => ?_⟩
  · obtain ⟨⟨m, n, g, x⟩, he, rfl⟩ := mem_map.mp hc
    obtain ⟨key, hmem⟩ := mem_allRoutes_iff.mp he
    exact hN _ hmem
  · obtain ⟨⟨m, n, g, x⟩, he, rfl⟩ := mem_map.mp hc
    exact (hinv.mem_allRoutes hA hN).mp he
  · obtain ⟨g, n, m⟩ := k
    obtain ⟨x, hx⟩ := ne_none_iff_exists'.mp hk
    exact ⟨_, mem_map_of_mem ((hinv.mem_allRoutes hA hN).mpr hx), rfl⟩

/-- Nothing waits for a connection that has not subscribed. -/
private theorem Synced.before (h : Synced N M P conn)
    (hstage : conn.stage = .idle ∨ conn.stage = .asked) : ¬ P ∧ conn.inbox = [] := by
  cases h with
  | idle gw hno | asked gw hno => exact ⟨hno, rfl⟩
  | answered | running => simp at hstage

/-- The connection handles the snapshot. -/
private theorem Synced.snapshot {routes : List SetRoute} (hA : Apart N) (h : Synced N M P conn)
    (hstage : conn.stage = .answered routes) :
    ∃ r written, handleSetRoutes env conn.gw .empty routes = .ok (r, written) ∧
      Synced N M P (conn.setStage (.running r)) := by
  cases h with
  | idle | asked | running => contradiction
  | answered hP hroutes hinbox htable =>
    obtain rfl := ConnStage.answered.inj hstage
    obtain ⟨r, written, hr, hinv, hN, hrt⟩ := handleSetRoutes_spec env _ hA
      (fun p hp => absurd hp not_mem_nil) inv_empty hroutes
    refine ⟨r, written, hr, .running hP hinv hN hinbox ?_⟩
    rw [hrt, setRoutes_fst, ← replay_append]
    exact htable

/-- The connection handles an update. -/
private theorem Synced.update {inbox : List SetRoute} (hA : Apart N) (h : Synced N M P conn)
    (hstage : conn.stage = .running r) (hinbox : conn.inbox = c :: inbox) :
    ∃ r' written, handleSetRoutes env conn.gw r [c] = .ok (r', written) ∧
      Synced N M P ⟨conn.gw, .running r', inbox⟩ := by
  cases h with
  | idle | asked | answered => contradiction
  | running hP hinv hN hdest htable =>
    obtain rfl := ConnStage.running.inj hstage
    obtain rfl : _ = c :: inbox := hinbox
    obtain ⟨hc, hdest⟩ := forall_mem_cons.mp hdest
    obtain ⟨r', written, hr', hinv', hN', hrt⟩ := handleSetRoutes_spec env _ hA hN hinv
      (forall_mem_singleton.mpr hc)
    refine ⟨r', written, hr', .running hP hinv' hN' hdest ?_⟩
    rw [hrt, setRoutes_fst, ← replay_append]
    exact htable

/-- A connection for which nothing waits has the table. -/
private theorem Synced.done (h : Synced N M P conn) (hstage : conn.stage = .running r)
    (hinbox : conn.inbox = []) : r.Inv ∧ r.NetsIn N ∧ r.table = M := by
  cases h with
  | idle | asked | answered => contradiction
  | running hP hinv hN hdest htable =>
    obtain rfl := ConnStage.running.inj hstage
    obtain rfl : _ = [] := hinbox
    exact ⟨hinv, hN, htable⟩

end Steps

/-! ### Runs -/

/-- The manager is sound, and each connection is in step with it. -/
structure Inv (N : Set NetAddress) (s : Replicas) : Prop where
  workers : Manager.WorkersOk N s.manager
  synced : ∀ a, Synced N s.manager.routeRegistry.table (Subscribed s.manager a) (s.conns a)

/-- A step of one connection. -/
private theorem Inv.setConn (h : Inv N s) {a : Address} {conn : Conn}
    (hconn : Synced N s.manager.routeRegistry.table (Subscribed s.manager a) conn) :
    Inv N (s.setConn a conn) := by
  refine ⟨h.workers, fun a' => ?_⟩
  change Synced N _ _ (update s.conns a conn a')
  by_cases ha : a' = a
  · subst ha
    rwa [update_self]
  · rw [update_of_ne ha]
    exact h.synced a'

/-- The manager changes what is not about routes or subscriptions. -/
private theorem Inv.setManager (h : Inv N s) {m : Manager} (hworkers : Manager.WorkersOk N m)
    (hreg : m.routeRegistry = s.manager.routeRegistry)
    (hsub : m.routeSubscribers = s.manager.routeSubscribers) : Inv N { s with manager := m } := by
  refine ⟨hworkers, fun a => ?_⟩
  change Synced N m.routeRegistry.table (∃ w, (w, a) ∈ m.routeSubscribers) (s.conns a)
  rw [hreg, hsub]
  exact h.synced a

/-- A route goes to all replicas. -/
private theorem Inv.setRoute (h : Inv N s) {c : SetRoute} (hc : c.destination ∈ N)
    (hs : Replicas.step env s (.setRoute c reply) = some s') : Inv N s' := by
  obtain ⟨m, hm, hworkers, htable, hsub, -⟩ := Manager.onSetRoute_spec env reply h.workers hc
  simp only [Replicas.step, hm] at hs
  obtain rfl := some.inj hs
  refine ⟨hworkers, fun a => ?_⟩
  obtain ⟨hconst, hne⟩ := told_spec s.manager c a _ rfl
  have hsub' : Subscribed m a ↔ Subscribed s.manager a := by rw [Subscribed, hsub, Subscribed]
  rw [htable, propext hsub']
  exact (h.synced a).told hc hconst hne

/-- A reference that no subscription has. -/
private theorem filter_of_fresh {subscribers : List (WatchRef × Address)}
    (h : ¬ subscribers.any (·.1 = watchRef) = true) :
    subscribers.filter (·.1 ≠ watchRef) = subscribers := by
  refine filter_eq_self.mpr fun p hp => decide_eq_true fun heq => h ?_
  exact any_eq_true.mpr ⟨p, hp, decide_eq_true heq⟩

private theorem Inv.down (h : Inv N s) {peer : Address}
    (hs : Replicas.step env s (.down watchRef peer) = some s') : Inv N s' := by
  rw [Replicas.step] at hs
  split at hs
  · contradiction
  case isFalse hno =>
    obtain rfl := some.inj hs
    rw [Manager.onDown]
    split
    · exact h.setManager (h.workers.congr rfl rfl rfl) rfl (filter_of_fresh hno)
    · exact h.setManager (h.workers.congr rfl rfl rfl) rfl (filter_of_fresh hno)

/-- A new subscriber gets all routes there are. -/
private theorem Inv.subscribe (h : Inv N s) {a : Address}
    (hs : Replicas.step env s (.subscribe a reply) = some s') : Inv N s' := by
  rw [Replicas.step] at hs
  split at hs
  case h_2 => contradiction
  case h_1 hstage =>
    split at hs
    · contradiction
    case isFalse hno =>
      obtain rfl := some.inj hs
      have hsub : (s.manager.onSubscribeToRoutes a reply).1.routeSubscribers =
          (reply.watchRef, a) :: s.manager.routeSubscribers :=
        congrArg (_ :: ·) (filter_of_fresh hno)
      refine ⟨h.workers.congr rfl rfl rfl, fun a' => ?_⟩
      have hconn := h.synced a'
      change Synced N s.manager.routeRegistry.table _ (update s.conns a _ a')
      by_cases ha : a' = a
      · subst ha
        rw [update_self, Conn.setStage, (hconn.before (.inr hstage)).2]
        obtain ⟨hroutes, htable⟩ := replay_snapshot h.workers.apart h.workers.netsIn h.workers.inv
        refine .answered ⟨reply.watchRef, ?_⟩ hroutes (fun c hc => absurd hc not_mem_nil) ?_
        · exact mem_cons_self
        · rw [append_nil]
          exact htable
      · rw [update_of_ne ha]
        have hiff : Subscribed (s.manager.onSubscribeToRoutes a reply).1 a' ↔
            Subscribed s.manager a' := by
          simp only [Subscribed, hsub, mem_cons, Prod.mk.injEq, ha, and_false, false_or]
        exact propext hiff ▸ hconn

/-- A step keeps the replicas right. -/
private theorem Inv.step (h : Inv N s) (hok : DestIn N s a) (hs : step env s a = some s') :
    Inv N s' := by
  have hA := h.workers.apart
  match a, hs with
  | .setRoute c reply, hs => exact h.setRoute env hok hs
  | .down watchRef peer, hs => exact h.down env hs
  | .subscribe a reply, hs => exact h.subscribe env hs
  | .ask a, hs =>
    rw [Replicas.step] at hs
    split at hs
    case h_2 => contradiction
    case h_1 hstage =>
      obtain rfl := some.inj hs
      obtain ⟨hno, hinbox⟩ := (h.synced a).before (.inl hstage)
      refine h.setConn ?_
      rw [Conn.setStage, hinbox]
      exact .asked _ hno
  | .snapshot a, hs =>
    rw [Replicas.step] at hs
    split at hs
    case h_2 => contradiction
    case h_1 routes hstage =>
      obtain ⟨r, written, hr, hrun⟩ := (h.synced a).snapshot env hA hstage
      rw [hr] at hs
      exact some.inj hs ▸ h.setConn hrun
  | .update a, hs =>
    rw [Replicas.step] at hs
    split at hs
    case h_2 => contradiction
    case h_1 registry c inbox hstage hinbox =>
      obtain ⟨r, written, hr, hrun⟩ := (h.synced a).update env hA hstage hinbox
      rw [hr] at hs
      exact some.inj hs ▸ h.setConn hrun

private theorem inv_start (hA : Apart N) (locals : List NetAddress) (gws : Address → Address) :
    Inv N (start locals gws) := by
  obtain ⟨subnets, -, heq⟩ := Manager.withLocals_eq locals
  refine ⟨(Manager.exact_withLocals locals).workersOk hA ?_, fun a => ?_⟩
  · rw [heq]
    rintro n ⟨p, hp, -⟩
    exact absurd hp not_mem_nil
  · rw [start, heq]
    refine .idle _ ?_
    rintro ⟨w, hw⟩
    exact absurd hw not_mem_nil

/-- Registries with the same table list the same routes. -/
private theorem allRoutes_perm {r r' : RouteRegistry} (hA : Apart N) (hN : r.NetsIn N)
    (hinv : r.Inv) (hN' : r'.NetsIn N) (hinv' : r'.Inv) (htable : r.table = r'.table) :
    r.allRoutes.Perm r'.allRoutes := by
  refine (perm_ext_iff_of_nodup (hinv.nodup_allRoutes hA hN) (hinv'.nodup_allRoutes hA hN')).mpr ?_
  rintro ⟨m, n, g, x⟩
  rw [hinv.mem_allRoutes hA hN, hinv'.mem_allRoutes hA hN', htable]

/-- **A connection has the routes of the manager.** With canonical destinations that are pairwise
equal or disjoint, in every state reached: a connection that has handled the snapshot and every
update told to it has exactly the routes of the manager, and a connection that has not can go
on. -/
theorem allRoutes_perm_of_reaches (hcanon : ∀ n ∈ N, n.IsAligned)
    (hdisj : ∀ n ∈ N, ∀ n' ∈ N, n = n' ∨ n.Disjoint n') (locals : List NetAddress)
    (gws : Address → Address) (h : Reaches (step env) (DestIn N) (start locals gws) s)
    (a : Address) :
    (∀ r, (s.conns a).stage = .running r → (s.conns a).inbox = [] →
      r.allRoutes.Perm s.manager.routeRegistry.allRoutes) ∧
    (∀ routes, (s.conns a).stage = .answered routes → step env s (.snapshot a) ≠ none) ∧
    ∀ r, (s.conns a).stage = .running r → (s.conns a).inbox ≠ [] →
      step env s (.update a) ≠ none := by
  have hA := apart_of_disjoint hcanon hdisj
  have hinv : Inv N s := h.invariant (inv_start hA locals gws) fun {s a s'} => Inv.step env
  have hconn := hinv.synced a
  refine ⟨fun r hstage hinbox => ?_, fun routes hstage => ?_, fun r hstage hinbox => ?_⟩
  · obtain ⟨hinv', hN', htable⟩ := hconn.done hstage hinbox
    exact allRoutes_perm hA hN' hinv' hinv.workers.netsIn hinv.workers.inv htable
  · obtain ⟨r, written, hr, -⟩ := hconn.snapshot env hA hstage
    simp only [step, hstage, hr]
    exact some_ne_none _
  · obtain ⟨c, inbox, hinbox⟩ := exists_cons_of_ne_nil hinbox
    obtain ⟨r', written, hr', -⟩ := hconn.update env hA hstage hinbox
    simp only [step, hstage, hinbox, hr']
    exact some_ne_none _

/-- The subnets `<f:100>/56` and `<f:200>/56`. -/
def sampleNets : Set NetAddress := {n | n = netF1 ∨ n = netF2}

instance : DecidablePred (· ∈ sampleNets) := fun n =>
  inferInstanceAs (Decidable (n = netF1 ∨ n = netF2))

/-- An update that is told before the snapshot is read. -/
theorem allRoutes_perm_of_reaches_early_update :
    ∃ s r, Reaches (step plainEnv) (DestIn sampleNets) (start [] id) s ∧
      (s.conns ⟨0xc001#64⟩).stage = .running r ∧ (s.conns ⟨0xc001#64⟩).inbox = [] ∧
      s.manager.routeRegistry.allRoutes.length = 2 ∧
      r.allRoutes.Perm s.manager.routeRegistry.allRoutes := by
  have hreach : Reaches (step plainEnv) (DestIn sampleNets) (start [] id) _ := reaches_get
    [.setRoute ⟨sampleKey, netF1, some ⟨0xa101#64⟩, some 1⟩ ⟨⟨0xb001#64⟩, 1⟩,
      .ask ⟨0xc001#64⟩, .subscribe ⟨0xc001#64⟩ ⟨⟨0xb002#64⟩, 2⟩,
      .setRoute ⟨sampleKey, netF2, some ⟨0xa101#64⟩, some 3⟩ ⟨⟨0xb003#64⟩, 3⟩,
      .snapshot ⟨0xc001#64⟩, .update ⟨0xc001#64⟩] (by decide)
  have hcanon : ∀ n ∈ sampleNets, n.IsAligned := by
    rintro n (rfl | rfl) <;> decide
  have hdisj : ∀ n ∈ sampleNets, ∀ n' ∈ sampleNets, n = n' ∨ n.Disjoint n' := by
    rintro n (rfl | rfl) n' (rfl | rfl)
    · exact .inl rfl
    · exact .inr netF1_disjoint
    · exact .inr netF1_disjoint.symm
    · exact .inl rfl
  have hperm := (allRoutes_perm_of_reaches plainEnv hcanon hdisj [] id hreach ⟨0xc001#64⟩).1
  exact ⟨_, _, hreach, rfl, rfl, rfl, hperm _ rfl rfl⟩

end Replicas

end Mm1
