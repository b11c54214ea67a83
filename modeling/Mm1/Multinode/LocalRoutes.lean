import Mm1.Multinode.Announce
import Mm1.Multinode.MultipleProtocols

/-!
# Local routes

A node is told its local subnets and its protocols, by requests in any order. For each message type
of a protocol there is to be a local route to each local subnet. But only `RegisterProtocol`
announces routes, to the subnets that are there at the time. `RegisterLocalSubnet` announces none.
So a subnet misses the types of the protocols that have come before it.

* `Announced`: a protocol with the type has come after the subnet;
* `Serving.Inv`: the routes that are there and those that are still in the inbox are the announced
  ones;
* `inv_of_runs`: every run, however requests and messages take turns;
* `routes_complete_iff`: when the routes do not depend on the order of the requests;
* `routes_depend_on_order`: two requests in both orders.
-/

namespace Mm1

open OrderedMap Fallible Transition List AddressRange RouteRegistry ProtocolRegistry NetAddress

variable {TypeId : Type} {typeName : TypeId → MessageName} {protocol : Protocol typeName}
  {replyTo : RequestHeader} {routes : List SetRoute} {sent : List (MultinodeManager.Sent typeName)}
  {ans : MultinodeManager.Answers} {manager : NetManager typeName} {subnets : List NetAddress}
  {rest : List SetRoute} {k : LocalTypeKey} {n : NetAddress} {c : SetRoute}

namespace NetManager

/-! ### Requests and messages -/

/-- A request to the manager. -/
inductive Request (typeName : TypeId → MessageName) where
  | registerLocalSubnet (net : NetAddress)
  | registerProtocol (replyTo : RequestHeader) (name : ProtocolName) (protocol : Protocol typeName)

/-- The manager while it handles requests. -/
structure Serving (typeName : TypeId → MessageName) where
  manager : NetManager typeName
  /-- what the manager has told itself, and not handled yet -/
  inbox : List SetRoute
  /-- the requests that have been handled, in their order -/
  handled : List (Request typeName)

/-- The next message is a request, or one that the manager has told itself. -/
inductive Turn (typeName : TypeId → MessageName) where
  | request (ans : MultinodeManager.Answers) (request : Request typeName)
  | setRoute (reply : Reply)

namespace Serving

/-- The manager as `run` builds it. -/
def init : Serving typeName := ⟨.init, [], []⟩

section Turns

variable [DecidableEq TypeId]

/-- Handle a request, with what the manager tells itself. -/
def handle (ans : MultinodeManager.Answers) (s : NetManager typeName) :
    Request typeName → Except WaitlistPanic (NetManager typeName × List SetRoute)
  | .registerLocalSubnet net => .ok (s.onRegisterLocalSubnet net, [])
  | .registerProtocol replyTo name protocol => do
    let (s, sent) ← s.onRegisterProtocol ans replyTo name protocol
    return (s, routesOf sent)

/-- Handle the next message. -/
def step (env : Env) (s : Serving typeName) : Turn typeName → Option (Serving typeName)
  | .request ans request => (handle ans s.manager request).toOption.map fun (manager, told) =>
    { manager, inbox := s.inbox ++ told, handled := s.handled ++ [request] }
  | .setRoute reply =>
    match s.inbox with
    | [] => none
    | c :: rest => (s.manager.onSetRoute env c reply).toOption.map fun (manager, _) =>
      { s with manager, inbox := rest }

/-- The runs of a manager: requests in any order, with their messages anywhere after them. -/
abbrev Runs (env : Env) (s : Serving typeName) : Prop := Reaches (step env) (fun _ _ => True) init s

end Turns

end Serving

/-! ### What is announced -/

variable {handled : List (Request typeName)} {request : Request typeName} {net : NetAddress}
  {name : MessageName}

/-- A protocol with the message type has come after the subnet. -/
def Announced (net : NetAddress) (name : MessageName) (handled : List (Request typeName)) : Prop :=
  ∃ replyTo protocolName protocol,
    [.registerLocalSubnet net, .registerProtocol replyTo protocolName protocol].Sublist handled ∧
      ∃ c ∈ protocol.codecs, c.name = name

/-- No two local subnets overlap. -/
def SubnetsApart (handled : List (Request typeName)) : Prop :=
  ∀ net net', .registerLocalSubnet net ∈ handled → .registerLocalSubnet net' ∈ handled →
    net.Overlaps net' → net = net'

/-- The subnet as the manager has it. -/
def canonical (net : NetAddress) : NetAddress := .ofRange (.ofNet net)

/-- The destinations of the local routes. -/
def destinations (handled : List (Request typeName)) : Set NetAddress :=
  {n | ∃ net, .registerLocalSubnet net ∈ handled ∧ n = canonical net}

private theorem SubnetsApart.of_append {later : List (Request typeName)}
    (h : SubnetsApart (handled ++ later)) : SubnetsApart handled := fun net net' hnet hnet' =>
  h net net' (mem_append_left _ hnet) (mem_append_left _ hnet')

private theorem destinations_append (handled later : List (Request typeName)) :
    destinations handled ⊆ destinations (handled ++ later) :=
  fun _ ⟨net, hnet, hn⟩ => ⟨net, mem_append_left _ hnet, hn⟩

/-- The destinations are told apart by their ranges. -/
private theorem SubnetsApart.apart (h : SubnetsApart handled) : Apart (destinations handled) where
  readsBack := by
    rintro _ ⟨net, -, rfl⟩
    exact congrArg ofRange (ofNet_ofRange net)
  eq_of_overlaps := by
    rintro _ ⟨net, hnet, rfl⟩ _ ⟨net', hnet', rfl⟩ hover
    rw [NetAddress.Overlaps, canonical, canonical, ofNet_ofRange, ofNet_ofRange] at hover
    rw [h net net' hnet hnet' hover]

private theorem SubnetsApart.canonical_inj (h : SubnetsApart handled) {net net' : NetAddress}
    (hnet : .registerLocalSubnet net ∈ handled) (hnet' : .registerLocalSubnet net' ∈ handled)
    (heq : canonical net = canonical net') : net = net' := by
  refine h net net' hnet hnet' ?_
  have hrange := congrArg ofNet heq
  rw [canonical, canonical, ofNet_ofRange, ofNet_ofRange] at hrange
  rw [NetAddress.Overlaps, hrange]
  exact cmp_self _

private theorem Announced.mem_handled (h : Announced net name handled) :
    .registerLocalSubnet net ∈ handled ∧
      ∃ replyTo protocolName protocol, .registerProtocol replyTo protocolName protocol ∈ handled ∧
        ∃ c ∈ protocol.codecs, c.name = name := by
  obtain ⟨replyTo, protocolName, protocol, hsub, hname⟩ := h
  refine ⟨hsub.subset mem_cons_self, replyTo, protocolName, protocol, hsub.subset ?_, hname⟩
  exact mem_cons_of_mem _ mem_cons_self

/-- One element before another, and one more at the end. -/
private theorem pair_sublist_concat {α : Type*} {a b x : α} {l : List α} :
    [a, b].Sublist (l ++ [x]) ↔ [a, b].Sublist l ∨ a ∈ l ∧ x = b := by
  rw [← reverse_sublist, reverse_append, reverse_singleton, singleton_append,
    sublist_cons_iff, reverse_sublist]
  refine or_congr Iff.rfl ?_
  constructor
  · rintro ⟨rest, heq, hsub⟩
    obtain ⟨rfl, rfl⟩ := List.cons.inj heq
    exact ⟨mem_reverse.mp (singleton_sublist.mp hsub), rfl⟩
  · rintro ⟨ha, rfl⟩
    exact ⟨[a], rfl, singleton_sublist.mpr (mem_reverse.mpr ha)⟩

/-- One more request. -/
private theorem announced_concat : Announced net name (handled ++ [request]) ↔
    Announced net name handled ∨ .registerLocalSubnet net ∈ handled ∧
      ∃ replyTo protocolName protocol, request = .registerProtocol replyTo protocolName protocol ∧
        ∃ c ∈ protocol.codecs, c.name = name := by
  simp only [Announced, pair_sublist_concat, or_and_right, exists_or, and_assoc, exists_and_left]

/-! ### The keys of a protocol -/

section Keys

variable [DecidableEq TypeId] {slots : Roster.Slots LocalTypeKey} {r r' : ProtocolRegistry typeName}
  {cs : List (ErasedCodecApi typeName)}

/-- The types have keys, and the routes are those of the keys to the subnets. -/
def Announces (r : ProtocolRegistry typeName) (cs : List (ErasedCodecApi typeName))
    (subnets : List NetAddress) (routes : List SetRoute) : Prop :=
  (∀ c ∈ cs, ∃ k, r.codecByName c.name = some k) ∧
    ∀ route, route ∈ routes ↔ ∃ c ∈ cs, ∃ k, r.codecByName c.name = some k ∧
      ∃ net ∈ subnets, route = ⟨k, net, none, some 0⟩

omit [DecidableEq TypeId] in
/-- A name that has a key keeps it. -/
private theorem codecByName_iff_of_grows {name : MessageName} (h : Grows r r')
    (hname : ∃ j, r.codecByName name = some j) :
    r'.codecByName name = some k ↔ r.codecByName name = some k := by
  obtain ⟨j, hj⟩ := hname
  rw [hj, h.names name j hj]

omit [DecidableEq TypeId] in
private theorem Announces.mono (h : Announces r cs subnets routes)
    (hgrows : Grows r r') : Announces r' cs subnets routes := by
  refine ⟨fun c hc => ?_, fun route => ?_⟩
  · obtain ⟨k, hk⟩ := h.1 c hc
    exact ⟨k, hgrows.names _ _ hk⟩
  · rw [h.2 route]
    refine exists_congr fun c => and_congr_right fun hc => exists_congr fun k => ?_
    rw [codecByName_iff_of_grows hgrows (h.1 c hc)]

/-- The routes that are announced. -/
private theorem announces_of_announce {room : ℕ} (hinv : r.Inv)
    (h : ProtocolRegistry.announce slots subnets room r cs = .ok (routes, r')) :
    r'.Inv ∧ Grows r r' ∧ Announces r' cs subnets routes := by
  obtain ⟨names, hnames, rfl⟩ := registerMessages_of_announce h
  obtain ⟨hinv', hgrows, hkeys⟩ := (registerMessages_keys hinv cs).of_ok hnames
  refine ⟨hinv', hgrows, fun c hc => ?_, fun route => ?_⟩
  · obtain ⟨k, hk⟩ := hkeys.exists_mem hc
    exact ⟨k, hkeys.2 _ hk⟩
  · rw [mem_localRoutes]
    constructor
    · rintro ⟨p, hp, net, hnet, rfl⟩
      obtain ⟨c, hc, -, hk⟩ := hkeys.mem_iff.mp hp
      exact ⟨c, hc, p.2, hk, net, hnet, rfl⟩
    · rintro ⟨c, hc, k, hk, net, hnet, rfl⟩
      exact ⟨(c.name, k), hkeys.mem_iff.mpr ⟨c, hc, rfl, hk⟩, net, hnet, rfl⟩

/-- What the handler of `RegisterProtocol` does to the registry, and what it announces. -/
private theorem onRegisterProtocol_announces {s s' : NetManager typeName} {name : ProtocolName}
    (hinv : s.protocolRegistry.Inv)
    (h : s.onRegisterProtocol ans replyTo name protocol = .ok (s', sent)) :
    s'.protocolRegistry.Inv ∧ Grows s.protocolRegistry s'.protocolRegistry ∧
      Announces s'.protocolRegistry protocol.codecs (subnetsOf s.localSubnets) (routesOf sent) ∧
      s'.localSubnets = s.localSubnets ∧ s'.routeRegistry = s.routeRegistry := by
  obtain ⟨r₀, answer, r₁, resolved, hregister, hannounce, hresolve, -, hsubnets, hroutes⟩ :=
    onRegisterProtocol_ok h
  obtain ⟨hinv₀, hgrows₀, -⟩ := (registerProtocol_spec hinv).of_ok hregister
  obtain ⟨hinv₁, hgrows₁, hannounces⟩ := announces_of_announce hinv₀ hannounce
  obtain ⟨-, hinv₂, hgrows₂, -⟩ := (resolve_resolved hinv₁ protocol).of_ok hresolve
  exact ⟨hinv₂, (hgrows₀.trans hgrows₁).trans hgrows₂, hannounces.mono hgrows₂, hsubnets, hroutes⟩

end Keys

/-! ### Runs -/

/-- A route that is announced. -/
def Promised (r : ProtocolRegistry typeName) (handled : List (Request typeName)) (id : RouteId) :
    Prop :=
  id.1 = none ∧ ∃ net name, id.2.1 = canonical net ∧ r.codecByName name = some id.2.2 ∧
    Announced net name handled

namespace Serving

/-- **The routes that are there and those that are in the inbox** are the announced ones. -/
structure Inv (s : Serving typeName) : Prop where
  sorted : Sorted AddressRange.cmp s.manager.localSubnets
  subnets : ∀ q, (q, ()) ∈ s.manager.localSubnets ↔
    ∃ net, .registerLocalSubnet net ∈ s.handled ∧ q = .ofNet net
  registry : s.manager.protocolRegistry.Inv
  /-- all types have keys -/
  keys : ∀ replyTo name protocol, .registerProtocol replyTo name protocol ∈ s.handled →
    ∀ c ∈ protocol.codecs, ∃ k, s.manager.protocolRegistry.codecByName c.name = some k
  routes : s.manager.routeRegistry.Inv
  netsIn : s.manager.routeRegistry.NetsIn (destinations s.handled)
  zero : ∀ id x, s.manager.routeRegistry.table id = some x → x = 0
  inbox : ∀ c ∈ s.inbox, c.destination ∈ destinations s.handled ∧ c.metric = some 0
  covered : ∀ id, (s.manager.routeRegistry.table id ≠ none ∨ ∃ c ∈ s.inbox, c.id = id) ↔
    Promised s.manager.protocolRegistry s.handled id

/-- There are no routes at first. -/
private theorem inv_init : Inv (init : Serving typeName) where
  sorted := List.Pairwise.nil
  subnets _ := by simp [init, NetManager.init]
  registry := inv_empty
  keys _ _ _ h := absurd h not_mem_nil
  routes := inv_empty
  netsIn _ h := absurd h not_mem_nil
  zero _ _ h := absurd h.symm (Option.some_ne_none _)
  inbox _ h := absurd h not_mem_nil
  covered id := by
    refine iff_of_false (not_or.mpr ⟨not_not.mpr rfl, ?_⟩) ?_
    · rintro ⟨c, hc, -⟩
      exact not_mem_nil hc
    · rintro ⟨-, net, name, -, -, hannounced⟩
      exact not_mem_nil hannounced.mem_handled.1

variable {env : Env} {s s' : Serving typeName}

/-- The local subnets after one more. -/
private theorem Inv.subnets_onRegisterLocalSubnet (h : Inv s) {net : NetAddress}
    (hapart : SubnetsApart (s.handled ++ [.registerLocalSubnet net])) (q : AddressRange) :
    (q, ()) ∈ (s.manager.onRegisterLocalSubnet net).localSubnets ↔
      ∃ net', .registerLocalSubnet net' ∈ s.handled ++ [.registerLocalSubnet net] ∧
        q = .ofNet net' := by
  have hiff : (∃ net', .registerLocalSubnet net' ∈ s.handled ++ [.registerLocalSubnet net] ∧
      q = .ofNet net') ↔ q = .ofNet net ∨ (q, ()) ∈ s.manager.localSubnets := by
    simp only [mem_append, mem_singleton, Request.registerLocalSubnet.injEq,
      or_and_right, exists_or, exists_eq_left, h.subnets q]
    exact or_comm
  rw [hiff, onRegisterLocalSubnet, Manager.onRegisterLocalSubnet]
  split
  case h_1 e hentry =>
    -- what the subnet overlaps is the subnet itself
    obtain ⟨hmem, hover⟩ := mem_of_entry hentry
    obtain ⟨net', hnet', heq⟩ := (h.subnets e.1).mp hmem
    rw [heq] at hover
    have hsame : net = net' := hapart net net' (mem_append_right _ mem_cons_self)
      (mem_append_left _ hnet') hover
    refine (or_iff_right_of_imp ?_).symm
    rintro rfl
    exact (h.subnets _).mpr ⟨net', hnet', by rw [hsame]⟩
  case h_2 =>
    rw [withRoutes, mem_insert, Prod.mk.injEq, and_iff_left rfl]
    rfl

private theorem onRegisterLocalSubnet_routeRegistry (s : NetManager typeName)
    (net : NetAddress) : (s.onRegisterLocalSubnet net).routeRegistry = s.routeRegistry := by
  obtain ⟨locals, heq⟩ := Manager.onRegisterLocalSubnet_eq s.routes net
  rw [onRegisterLocalSubnet, heq]
  rfl

/-- A local subnet: nothing is announced. -/
private theorem Inv.registerLocalSubnet (h : Inv s) {net : NetAddress}
    (hapart : SubnetsApart (s.handled ++ [.registerLocalSubnet net])) :
    Inv ⟨s.manager.onRegisterLocalSubnet net, s.inbox,
      s.handled ++ [.registerLocalSubnet net]⟩ := by
  have hgrows := destinations_append s.handled [.registerLocalSubnet net]
  have hroutes := onRegisterLocalSubnet_routeRegistry s.manager net
  exact {
    sorted := Manager.sorted_onRegisterLocalSubnet net h.sorted
    subnets := h.subnets_onRegisterLocalSubnet hapart
    registry := h.registry
    keys := by
      intro replyTo name protocol hmem
      rcases mem_append.mp hmem with hmem | hmem
      · exact h.keys replyTo name protocol hmem
      · have := mem_singleton.mp hmem
        contradiction
    routes := hroutes ▸ h.routes
    netsIn := hroutes ▸ fun p hp => hgrows (h.netsIn p hp)
    zero := hroutes ▸ h.zero
    inbox := fun c hc => ⟨hgrows (h.inbox c hc).1, (h.inbox c hc).2⟩
    covered := by
      intro id
      dsimp only
      rw [hroutes, h.covered id]
      simp [Promised, announced_concat, onRegisterLocalSubnet, withRoutes] }

/-- A message that the manager has told itself: the route is in the table and not in the inbox. -/
private theorem Inv.setRoute (h : Inv s) (hapart : SubnetsApart s.handled) {reply : Reply}
    {told : List (Address × SetRoute)} (hinbox : s.inbox = c :: rest)
    (hset : s.manager.onSetRoute env c reply = .ok (manager, told)) :
    Inv { s with manager, inbox := rest } := by
  obtain ⟨⟨answer, happly⟩, hprot, hlocal⟩ := onSetRoute_ok hset
  obtain ⟨⟨hdest, hmetric⟩, hrest⟩ := forall_mem_cons.mp (hinbox ▸ h.inbox)
  obtain ⟨r', happly', hroutes, hnets, htable⟩ :=
    apply_spec env hapart.apart h.netsIn h.routes hdest
  obtain ⟨rfl, -⟩ := eq_of_ok_mk (happly.symm.trans happly')
  have hset : ∀ id, manager.routeRegistry.table id =
      if id = c.id then some 0 else s.manager.routeRegistry.table id := by
    intro id
    rw [htable, Table.set, hmetric, Function.update_apply]
  exact {
    sorted := hlocal ▸ h.sorted
    subnets := hlocal ▸ h.subnets
    registry := hprot ▸ h.registry
    keys := hprot ▸ h.keys
    routes := hroutes
    netsIn := hnets
    zero := by
      intro id x hx
      rw [hset] at hx
      split at hx
      · exact (Option.some.inj hx).symm
      · exact h.zero id x hx
    inbox := hrest
    covered := by
      intro id
      dsimp only
      rw [hprot, ← h.covered id, hinbox, exists_mem_cons_iff, hset]
      by_cases hid : id = c.id
      · rw [if_pos hid]
        exact iff_of_true (.inl (Option.some_ne_none 0)) (.inr (.inl hid.symm))
      · rw [if_neg hid, or_iff_right (Ne.symm hid)] }

private theorem Inv.mem_subnetsOf (h : Inv s) :
    n ∈ subnetsOf s.manager.localSubnets ↔ n ∈ destinations s.handled := by
  rw [subnetsOf, mem_map]
  constructor
  · rintro ⟨⟨q, u⟩, hq, rfl⟩
    obtain ⟨net, hnet, rfl⟩ := (h.subnets q).mp hq
    exact ⟨net, hnet, rfl⟩
  · rintro ⟨net, hnet, rfl⟩
    exact ⟨(.ofNet net, ()), (h.subnets _).mpr ⟨net, hnet, rfl⟩, rfl⟩

/-- A protocol: it is announced to the subnets that are there. -/
private theorem Inv.promised_concat (h : Inv s) {r' : ProtocolRegistry typeName}
    {name : ProtocolName} (hgrows : Grows s.manager.protocolRegistry r')
    (hannounces : Announces r' protocol.codecs (subnetsOf s.manager.localSubnets) routes)
    (id : RouteId) :
    Promised r' (s.handled ++ [.registerProtocol replyTo name protocol]) id ↔
      Promised s.manager.protocolRegistry s.handled id ∨ ∃ c ∈ routes, c.id = id := by
  constructor
  · rintro ⟨hvia, net, type, hnet, hkey, hannounced⟩
    rcases announced_concat.mp hannounced with
      hannounced | ⟨hmem, replyTo', name', p', heq, c, hc, hname⟩
    · obtain ⟨-, replyTo', name', p', hp', c, hc, rfl⟩ := hannounced.mem_handled
      rw [codecByName_iff_of_grows hgrows (h.keys replyTo' name' p' hp' c hc)] at hkey
      exact .inl ⟨hvia, net, c.name, hnet, hkey, hannounced⟩
    · obtain ⟨rfl, rfl, rfl⟩ := Request.registerProtocol.inj heq
      refine .inr ⟨⟨id.2.2, id.2.1, none, some 0⟩, ?_, ?_⟩
      · refine (hannounces.2 _).mpr ⟨c, hc, id.2.2, hname ▸ hkey, id.2.1, ?_, rfl⟩
        exact h.mem_subnetsOf.mpr ⟨net, hmem, hnet⟩
      · exact Prod.ext hvia.symm rfl
  · rintro (⟨hvia, net, type, hnet, hkey, hannounced⟩ | ⟨route, hroute, rfl⟩)
    · exact ⟨hvia, net, type, hnet, hgrows.names _ _ hkey, announced_concat.mpr (.inl hannounced)⟩
    · obtain ⟨c, hc, k, hk, n, hn, rfl⟩ := (hannounces.2 route).mp hroute
      obtain ⟨net, hnet, rfl⟩ := h.mem_subnetsOf.mp hn
      exact ⟨rfl, net, c.name, rfl, hk,
        announced_concat.mpr (.inr ⟨hnet, replyTo, name, protocol, rfl, c, hc, rfl⟩)⟩

variable [DecidableEq TypeId]

/-- `register_protocol` keeps the invariant. -/
private theorem Inv.registerProtocol (h : Inv s) {name : ProtocolName}
    (hs : s.manager.onRegisterProtocol ans replyTo name protocol = .ok (manager, sent)) :
    Inv ⟨manager, s.inbox ++ routesOf sent,
      s.handled ++ [.registerProtocol replyTo name protocol]⟩ := by
  obtain ⟨hinv, hgrows, hannounces, hsubnets, hroutes⟩ := onRegisterProtocol_announces h.registry hs
  have hdest := destinations_append s.handled [.registerProtocol replyTo name protocol]
  exact {
    sorted := hsubnets ▸ h.sorted
    subnets := by
      intro q
      dsimp only
      rw [hsubnets, h.subnets q]
      simp
    registry := hinv
    keys := by
      intro replyTo' name' protocol' hmem c hc
      rcases mem_append.mp hmem with hmem | hmem
      · obtain ⟨k, hk⟩ := h.keys replyTo' name' protocol' hmem c hc
        exact ⟨k, hgrows.names _ _ hk⟩
      · obtain ⟨rfl, rfl, rfl⟩ := Request.registerProtocol.inj (mem_singleton.mp hmem)
        exact hannounces.1 c hc
    routes := hroutes ▸ h.routes
    netsIn := hroutes ▸ fun p hp => hdest (h.netsIn p hp)
    zero := hroutes ▸ h.zero
    inbox := by
      intro c hc
      rcases mem_append.mp hc with hc | hc
      · exact ⟨hdest (h.inbox c hc).1, (h.inbox c hc).2⟩
      · obtain ⟨c, -, k, -, n, hn, rfl⟩ := (hannounces.2 c).mp hc
        exact ⟨hdest (h.mem_subnetsOf.mp hn), rfl⟩
    covered := by
      intro id
      dsimp only
      rw [h.promised_concat hgrows hannounces, ← h.covered id, hroutes]
      simp only [mem_append, or_and_right, exists_or, or_assoc] }

/-- **Every run**, however requests and messages take turns. -/
theorem inv_of_runs (h : Runs env s) (hapart : SubnetsApart s.handled) : Inv s := by
  refine h.invariant (P := fun s => SubnetsApart s.handled → Inv s) (fun _ => inv_init) ?_ hapart
  intro s turn s' ih _ hs hapart
  cases turn with
  | setRoute reply =>
    rw [step] at hs
    split at hs
    case h_1 => contradiction
    case h_2 c rest hinbox =>
      obtain ⟨⟨manager, told⟩, hset, rfl⟩ := Option.map_eq_some_iff.mp hs
      exact (ih hapart).setRoute hapart hinbox (eq_ok_of_toOption hset)
  | request ans request =>
    obtain ⟨⟨manager, told⟩, hhandle, rfl⟩ := Option.map_eq_some_iff.mp hs
    have hhandle := eq_ok_of_toOption hhandle
    have hinv := ih hapart.of_append
    cases request with
    | registerLocalSubnet net =>
      obtain ⟨rfl, rfl⟩ := eq_of_ok_mk hhandle
      dsimp only
      rw [append_nil]
      exact hinv.registerLocalSubnet hapart
    | registerProtocol replyTo name protocol =>
      obtain ⟨⟨manager', sent⟩, hregister, hdone⟩ := exists_of_bind_eq_ok hhandle
      obtain ⟨rfl, rfl⟩ := eq_of_ok_mk hdone
      exact hinv.registerProtocol hregister

/-- A message of the inbox can be handled: its destination is local, so that there is no worker to
start or to stop. -/
theorem exists_step_of_inbox (h : Runs env s) (hapart : SubnetsApart s.handled)
    (hinbox : s.inbox = c :: rest) (reply : Reply) :
    ∃ s', step env s (.setRoute reply) = some s' ∧ s'.inbox = rest := by
  have hinv := inv_of_runs h hapart
  obtain ⟨hdest, -⟩ := hinv.inbox c (hinbox ▸ mem_cons_self)
  obtain ⟨r', happly, -⟩ := apply_spec env hapart.apart hinv.netsIn hinv.routes hdest
  obtain ⟨net, hnet, hcanon⟩ := hdest
  have hlocal : s.manager.routes.isLocal c.destination = true := by
    refine (isSome_entry_iff hinv.sorted).mpr
      ⟨_, (hinv.subnets _).mpr ⟨net, hnet, rfl⟩, ?_⟩
    rw [hcanon, canonical, ofNet_ofRange]
    exact cmp_self _
  obtain ⟨manager, hset⟩ : ∃ manager, s.manager.onSetRoute env c reply = .ok manager := by
    rw [onSetRoute, Manager.onSetRoute, hlocal]
    dsimp only [routes]
    rw [happly]
    exact ⟨_, rfl⟩
  refine ⟨{ s with manager := manager.1, inbox := rest }, ?_, rfl⟩
  rw [step, hinbox]
  dsimp only
  rw [hset]
  rfl

end Serving

open Serving

variable [DecidableEq TypeId] {env : Env} {s : Serving typeName}

/-- The routes are the local ones, from each message type to each local subnet. This says nothing
about the order of the requests. -/
def RoutesComplete (s : Serving typeName) : Prop :=
  ∀ k n g x, (k, n, g, x) ∈ s.manager.routeRegistry.allRoutes ↔
    g = none ∧ x = 0 ∧ n ∈ destinations s.handled ∧
      ∃ replyTo protocolName protocol,
        .registerProtocol replyTo protocolName protocol ∈ s.handled ∧
          ∃ c ∈ protocol.codecs, s.manager.protocolRegistry.codecByName c.name = some k

/-- The routes when all messages have been handled. -/
private theorem mem_allRoutes_of_runs (h : Runs env s) (hapart : SubnetsApart s.handled)
    (hdone : s.inbox = []) {g : Option Address} {x : RouteMetric} :
    (k, n, g, x) ∈ s.manager.routeRegistry.allRoutes ↔
      x = 0 ∧ Promised s.manager.protocolRegistry s.handled (g, n, k) := by
  have hinv := inv_of_runs h hapart
  rw [hinv.routes.mem_allRoutes hapart.apart hinv.netsIn, ← hinv.covered, hdone]
  constructor
  · intro hx
    refine ⟨hinv.zero _ _ hx, .inl ?_⟩
    rw [hx]
    exact Option.some_ne_none x
  · rintro ⟨rfl, hne | ⟨c, hc, -⟩⟩
    · obtain ⟨x, hx⟩ := Option.ne_none_iff_exists'.mp hne
      rw [hx, hinv.zero _ _ hx]
    · exact absurd hc not_mem_nil

/-- **When the routes do not depend on the order.** A manager has handled requests, with local
subnets that do not overlap, and all the messages that it has told itself. Each message type has a
local route to each local subnet, and there are no other routes, if and only if for each subnet and
each message type a protocol with the type has come after the subnet. -/
theorem routes_complete_iff (h : Runs env s) (hapart : SubnetsApart s.handled)
    (hdone : s.inbox = []) :
    RoutesComplete s ↔
      ∀ net replyTo protocolName protocol, .registerLocalSubnet net ∈ s.handled →
        .registerProtocol replyTo protocolName protocol ∈ s.handled →
          ∀ c ∈ protocol.codecs, Announced net c.name s.handled := by
  have hinv := inv_of_runs h hapart
  constructor
  · intro hcomplete net replyTo protocolName protocol hnet hprotocol c hc
    obtain ⟨k, hk⟩ := hinv.keys replyTo protocolName protocol hprotocol c hc
    have hroute := (hcomplete k (canonical net) none 0).mpr
      ⟨rfl, rfl, ⟨net, hnet, rfl⟩, replyTo, protocolName, protocol, hprotocol, c, hc, hk⟩
    obtain ⟨-, -, net', name, heq, hname, hannounced⟩ :=
      (mem_allRoutes_of_runs h hapart hdone).mp hroute
    obtain rfl := hapart.canonical_inj hnet hannounced.mem_handled.1 heq
    -- names and keys are in bijection
    obtain ⟨c₁, hc₁, hc₁name⟩ := (hinv.registry.names _ _).mp hk
    obtain ⟨c₂, hc₂, hc₂name⟩ := (hinv.registry.names _ _).mp hname
    obtain rfl := Option.some.inj (hc₁.symm.trans hc₂)
    rwa [← hc₁name, hc₂name]
  · intro hall k n g x
    rw [mem_allRoutes_of_runs h hapart hdone]
    constructor
    · rintro ⟨rfl, hvia, net, name, hn, hname, hannounced⟩
      obtain ⟨hnet, replyTo, protocolName, protocol, hprotocol, c, hc, rfl⟩ :=
        hannounced.mem_handled
      exact ⟨hvia, rfl, ⟨net, hnet, hn⟩, replyTo, protocolName, protocol, hprotocol, c, hc, hname⟩
    · rintro ⟨rfl, rfl, ⟨net, hnet, rfl⟩, replyTo, protocolName, protocol, hprotocol, c, hc, hk⟩
      exact ⟨rfl, rfl, net, c.name, rfl, hk,
        hall net replyTo protocolName protocol hnet hprotocol c hc⟩

/-- A request for a local subnet, and one for a protocol with one message type. -/
def sampleSubnet : Request fun _ : Unit => "message" := .registerLocalSubnet netF1

def sampleProtocol : Request fun _ : Unit => "message" :=
  .registerProtocol ⟨1, ⟨7⟩⟩ "protocol" (Protocol.new.addType ())

/-- The subnet first. -/
theorem routes_complete_subnet_first :
    ∃ s : Serving fun _ : Unit => "message", Runs plainEnv s ∧
      s.handled = [sampleSubnet, sampleProtocol] ∧ s.inbox = [] ∧ RoutesComplete s := by
  obtain ⟨s, hreach, hhandled, hdone⟩ : ∃ s : Serving fun _ : Unit => "message",
      Runs plainEnv s ∧ s.handled = [sampleSubnet, sampleProtocol] ∧ s.inbox = [] :=
    ⟨_, reaches_get [.request sampleAnswers sampleSubnet, .request sampleAnswers sampleProtocol,
      .setRoute ⟨⟨0⟩, 0⟩] rfl, rfl, rfl⟩
  have hnet : ∀ net, .registerLocalSubnet net ∈ s.handled → net = netF1 := by
    intro net hmem
    rw [hhandled] at hmem
    simpa [sampleSubnet, sampleProtocol] using hmem
  have hapart : SubnetsApart s.handled := fun net net' hmem hmem' _ =>
    (hnet net hmem).trans (hnet net' hmem').symm
  refine ⟨s, hreach, hhandled, hdone, (routes_complete_iff hreach hapart hdone).mpr ?_⟩
  intro net replyTo name protocol hmem hprotocol c hc
  refine ⟨replyTo, name, protocol, ?_, c, hc, rfl⟩
  rw [hnet net hmem, hhandled]
  rw [hhandled] at hprotocol
  have hlast : .registerProtocol replyTo name protocol = sampleProtocol := by
    simpa [sampleSubnet] using hprotocol
  rw [hlast]
  exact List.Sublist.refl _

/-- **The same requests in both orders.** The routes are not the same: the subnet that has come
after the protocol has none. -/
theorem routes_depend_on_order :
    ∃ s s' : Serving fun _ : Unit => "message",
      Runs plainEnv s ∧ Runs plainEnv s' ∧
        s.handled = [sampleSubnet, sampleProtocol] ∧ s'.handled = [sampleProtocol, sampleSubnet] ∧
        s.inbox = [] ∧ s'.inbox = [] ∧
        s.manager.routeRegistry.allRoutes =
          [(slotKey 1, netF1, none, 0)] ∧
        s'.manager.routeRegistry.allRoutes = [] := by
  have hrun : Runs plainEnv _ := reaches_get [.request sampleAnswers sampleSubnet,
    .request sampleAnswers sampleProtocol, .setRoute ⟨⟨0⟩, 0⟩] rfl
  have hrun' : Runs plainEnv _ :=
    reaches_get [.request sampleAnswers sampleProtocol, .request sampleAnswers sampleSubnet] rfl
  exact ⟨_, _, hrun, hrun', rfl, rfl, rfl, rfl, rfl, rfl⟩

end NetManager

end Mm1
