import Mm1.Common.Basic
import Mm1.Lib.History
import Mm1.Runtime.Registry

/-!
# The mailbox of an actor subnet

The forks of an actor share one mailbox. What is sent to an address of the actor's subnet, or to a
subnet that one of its forks has bound, comes into one of two channels (`Lane`). Whenever a fork
receives or pings, it first moves what has come by then into the inboxes of the forks
(`process_inlets`), a message at a time, for itself and for the others. A regular message holds a
permit of the node through which it was sent until it is received or discarded.

The forks of an actor are never run at the same time, but others may send at any moment, also while
`process_inlets` runs. So one turn of its loops is one step here. The answers of the channels (that
one is closed, that a lock is held by a sender) belong to the step.

* `SubnetContext.call`: the steps, with what each of them has done to messages (`Mark`);
* `Moves`, `moves_of_call`: what a step can do;
* `Wf`, `Wf.moves`: the forks and the bindings stay in order.
-/

namespace Mm1

namespace Mailbox

open OrderedMap Option List Function AddressRange Roster

/-! ### Messages and nodes -/

/-- The two channels of a mailbox. -/
inductive Lane where
  | priority
  | regular
  deriving DecidableEq

/-- What is in an envelope: a `Ping`, or something that `process_inlets` does not look at. -/
inductive Content (M : Type) where
  | ping (replyTo : Option Address) (id : BitVec 64)
  | other (message : M)
  deriving DecidableEq

/-- `Envelope`. Of the header there is what is read when the envelope is forwarded. -/
structure Envelope (M : Type) where
  ttl : UInt8
  priority : Bool
  content : Content M
  deriving DecidableEq

/-- `MessageWithPermit` or `MessageWithoutPermit`: the permit is one of the node with this index. -/
structure Message (M : Type) where
  dst : Address
  envelope : Envelope M
  permit : Option ℕ
  deriving DecidableEq

/-- `Node`, with the number of permits that its semaphore has left. -/
structure Node where
  subnet : AddressRange
  inboxSize : ℕ
  available : ℕ

/-- `Node::new` -/
def Node.new (subnet : NetAddress) (inboxSize : ℕ) : Node := ⟨.ofNet subnet, inboxSize, inboxSize⟩

/-- `ForkEntry` -/
structure ForkEntry (M : Type) where
  inbox : Lane → List (Message M)
  lastPingReceived : Option (BitVec 64)

/-- `process_inlets`, while it runs. -/
structure Inlets where
  fork : Address
  /-- it is called by `recv` and not by `ping` -/
  receives : Bool
  /-- the loop it is in -/
  lane : Lane
  /-- the first loop has ended because its channel was empty -/
  drained : Bool
  deriving DecidableEq

/-- `SubnetContext`, with the nodes of the subnet and of the bound subnets. Of the registry there
are those nodes only. -/
structure SubnetContext (M : Type) where
  subnetAddress : NetAddress
  rx : Lane → List (Message M)
  forkEntries : Roster Address (ForkEntry M)
  boundSubnets : List (AddressRange × Address)
  registry : Registry ℕ
  /-- all nodes, also those that are not registered any more -/
  nodes : List Node
  inlets : Option Inlets

/-- What a step has done to messages and to forks. -/
inductive Mark (M : Type) where
  /-- `Node::send` has accepted the message -/
  | accepted (lane : Lane) (m : Message M)
  /-- the message has left its channel for the inbox of a fork, or for nowhere -/
  | taken (lane : Lane) (m : Message M) (fork : Option Address)
  /-- `recv` has returned the message -/
  | received (fork : Address) (lane : Lane) (m : Message M)
  /-- the message has gone with its fork -/
  | discarded (m : Message M)
  /-- the fork is there from now on -/
  | created (fork : Address)
  /-- the fork has bound a subnet -/
  | bound (fork : Address) (subnet : AddressRange)

variable {M : Type} {dst : Address} {envelope : Envelope M} {registry : Registry ℕ} {isOpen : Bool}
  {inboxSize : ℕ} {K V : Type}

/-- `ForkEntry::default` -/
def ForkEntry.default : ForkEntry M := ⟨fun _ => [], none⟩

/-- `push_back` of one of the inboxes. -/
def ForkEntry.push (e : ForkEntry M) (lane : Lane) (m : Message M) : ForkEntry M :=
  { e with inbox := update e.inbox lane (e.inbox lane ++ [m]) }

/-- The subnet of an actor, for examples of runs. -/
def actorNet : NetAddress := ⟨⟨16#64⟩, .ofLevel 4⟩

namespace SubnetContext

/-- A subnet with its main fork. -/
def init (subnetAddress : NetAddress) (main : Address) (inboxSize : ℕ) : SubnetContext M where
  subnetAddress := subnetAddress
  rx _ := []
  forkEntries := Roster.empty.put main .default
  boundSubnets := []
  registry := ⟨[(.ofNet subnetAddress, 0)], pairwise_singleton ..⟩
  nodes := [.new subnetAddress inboxSize]
  inlets := none

/-! ### Sending -/

/-- A permit is taken. -/
def acquire (s : SubnetContext M) (n : ℕ) : SubnetContext M :=
  { s with nodes := s.nodes.modify n fun node => { node with available := node.available - 1 } }

/-- A message is dropped, and its permit with it. -/
def release (s : SubnetContext M) (m : Message M) : SubnetContext M :=
  match m.permit with
  | none => s
  | some n =>
    { s with nodes := s.nodes.modify n fun node => { node with available := node.available + 1 } }

/-- `try_send` of a channel that is open. -/
def push (s : SubnetContext M) (lane : Lane) (m : Message M) : SubnetContext M × List (Mark M) :=
  ({ s with rx := update s.rx lane (s.rx lane ++ [m]) }, [.accepted lane m])

/-- The permits that a node has left. -/
def available (s : SubnetContext M) (n : ℕ) : ℕ := (s.nodes[n]?.map Node.available).getD 0

/-- `Node::send` -/
def send (s : SubnetContext M) (n : ℕ) (dst : Address) (lane : Lane) (envelope : Envelope M)
    (isOpen : Bool) : SubnetContext M × List (Mark M) :=
  match lane with
  | .priority => if isOpen then s.push .priority ⟨dst, envelope, none⟩ else (s, [])
  | .regular =>
    if s.available n = 0 then (s, [])
    else if isOpen then (s.acquire n).push .regular ⟨dst, envelope, some n⟩
    -- a message that is refused is dropped with its permit
    else (s, [])

/-- `RtApi::send_to`, as far as it comes back to this mailbox. -/
def sendTo (s : SubnetContext M) (dst : Address) (lane : Lane) (envelope : Envelope M)
    (isOpen : Bool) : SubnetContext M × List (Mark M) :=
  match s.registry.lookup dst with
  | none => (s, [])
  | some n => s.send n dst lane envelope isOpen

/-! ### Receiving -/

/-- Whose message it is. -/
def route (s : SubnetContext M) (dst : Address) : Address :=
  ((entry AddressRange.cmp (.ofAddress dst) s.boundSubnets).map Prod.snd).getD dst

/-- What a turn of `process_inlets` does with a message. -/
def deliver (s : SubnetContext M) (lane : Lane) (m : Message M) (isOpen : Bool) :
    SubnetContext M × List (Mark M) :=
  let messageTo := s.route m.dst
  if (s.forkEntries.lookup messageTo).isSome then
    match lane, m.envelope.content with
    | .priority, .ping (some replyTo) id =>
      -- the pong goes through the registry as any message does, and may come back to this mailbox
      let (s, marks) := s.sendTo replyTo .priority
        ⟨EnvelopeHeader.defaultTtl, true, .ping none id⟩ isOpen
      (s, .taken lane m none :: marks)
    | .priority, .ping none id =>
      ({ s with forkEntries := s.forkEntries.modify messageTo fun e =>
          { e with lastPingReceived := some id } }, [.taken lane m none])
    | _, _ =>
      ({ s with forkEntries := s.forkEntries.modify messageTo fun e => e.push lane m },
        [.taken lane m (some messageTo)])
  else (s.release m, [.taken lane m none])

/-- A turn of the loop of `process_inlets` over one of the channels. -/
def turn (s : SubnetContext M) (lane : Lane) (isOpen : Bool) :
    Option (SubnetContext M × List (Mark M)) :=
  match s.rx lane with
  | [] => none
  | m :: rest => some ({ s with rx := update s.rx lane rest }.deliver lane m isOpen)

/-- `pop_front` of one of the inboxes. -/
def pop (s : SubnetContext M) (fork : Address) (lane : Lane) (m : Message M)
    (rest : List (Message M)) : SubnetContext M × List (Mark M) :=
  ({ s with forkEntries := s.forkEntries.modify fork fun e =>
      { e with inbox := update e.inbox lane rest } }.release m, [.received fork lane m])

/-- The end of `recv`, after `process_inlets`. If there is nothing, it waits. -/
def recv (s : SubnetContext M) (fork : Address) : SubnetContext M × List (Mark M) :=
  match s.forkEntries.lookup fork with
  | none => (s, [])
  | some entry =>
    match entry.inbox .priority, entry.inbox .regular with
    | m :: rest, _ => s.pop fork .priority m rest
    | [], m :: rest => s.pop fork .regular m rest
    | [], [] => (s, [])

/-! ### Forks and bindings -/

/-- `Bind::bind`. It is `granted` if the mailbox is still there and no other actor has a subnet that
overlaps. -/
def bind (s : SubnetContext M) (fork : Address) (bindTo : NetAddress) (inboxSize : ℕ)
    (granted : Bool) : SubnetContext M × List (Mark M) :=
  match entry AddressRange.cmp (.ofNet bindTo) s.boundSubnets with
  | some _ => (s, [])
  | none =>
    if granted then
      match s.registry.register bindTo s.nodes.length with
      | .error _ => (s, [])
      | .ok registry =>
        ({ s with
            registry
            nodes := s.nodes ++ [.new bindTo inboxSize]
            boundSubnets := insert AddressRange.cmp (.ofNet bindTo) fork s.boundSubnets },
          [.bound fork (.ofNet bindTo)])
    else (s, [])

/-- The first part of `ActorContext::drop`: the subnets that the fork has bound are given up. -/
def unbind (s : SubnetContext M) (fork : Address) : SubnetContext M :=
  let unboundSubnets := (s.boundSubnets.filter fun e => e.2 = fork).map Prod.fst
  { s with
    boundSubnets := unboundSubnets.foldl (fun bound r => remove AddressRange.cmp r bound)
      s.boundSubnets
    registry := unboundSubnets.foldl (fun registry r => (registry.unregister (.ofRange r)).2)
      s.registry }

/-- The second part: the entry of the fork is removed. -/
def without (s : SubnetContext M) (fork : Address) : SubnetContext M :=
  { s.unbind fork with forkEntries := s.forkEntries.erase fork }

/-- `ActorContext::drop`. The messages of the fork are dropped with its entry, and the last context
unregisters the subnet. -/
def drop (s : SubnetContext M) (fork : Address) (entry : ForkEntry M) :
    SubnetContext M × List (Mark M) :=
  let messages := entry.inbox .priority ++ entry.inbox .regular
  let s := messages.foldl release (s.without fork)
  (if s.forkEntries.entries = [] then
      { s with registry := (s.registry.unregister s.subnetAddress).2 }
    else s, messages.map .discarded)

end SubnetContext

/-! ### Steps -/

/-- A step of the forks of an actor and of those who send to them. -/
inductive Label (M : Type) where
  /-- somebody has looked up a node, and sends through it -/
  | send (node : ℕ) (dst : Address) (lane : Lane) (envelope : Envelope M) (isOpen : Bool)
  /-- a fork calls `process_inlets` -/
  | enter (fork : Address) (receives : Bool)
  /-- `try_recv_realtime` returns a message -/
  | turn (isOpen : Bool)
  /-- `try_recv_realtime` returns nothing, since there is nothing or since a sender has the lock -/
  | stop (contended : Bool)
  /-- `try_recv_realtime` fails -/
  | fail (reason : String)
  /-- `Fork::fork`, with an address of the subnet that is not in use -/
  | fork (address : Address)
  | bind (fork : Address) (bindTo : NetAddress) (inboxSize : ℕ) (granted : Bool)
  | drop (fork : Address)

namespace SubnetContext

/-- `try_recv_realtime` returns nothing: the loop is over. -/
def stop (s : SubnetContext M) (i : Inlets) (contended : Bool) :
    SubnetContext M × List (Mark M) :=
  match i.lane with
  | .priority => ({ s with inlets := some { i with lane := .regular, drained := !contended } }, [])
  | .regular => if i.receives then { s with inlets := none }.recv i.fork else
      ({ s with inlets := none }, [])

/-- Make a step, if it can be made. -/
def call (s : SubnetContext M) : Label M → Option (SubnetContext M × List (Mark M))
  | .send n dst lane envelope isOpen =>
    if ∃ node ∈ s.nodes[n]?, node.subnet.Mem dst then some (s.send n dst lane envelope isOpen)
    else none
  | .enter fork receives =>
    if s.inlets = none ∧ (s.forkEntries.lookup fork).isSome then
      some ({ s with inlets := some ⟨fork, receives, .priority, false⟩ }, [])
    else none
  | .turn isOpen => s.inlets.bind fun i => s.turn i.lane isOpen
  | .stop contended => s.inlets.bind fun i =>
    if contended = true ∨ (s.rx i.lane).isEmpty then some (s.stop i contended) else none
  | .fail _ => s.inlets.map fun _ => ({ s with inlets := none }, [])
  | .fork address =>
    if s.inlets = none ∧ s.forkEntries.entries ≠ [] ∧
        (ofNet s.subnetAddress).Mem address ∧ s.forkEntries.lookup address = none then
      some ({ s with forkEntries := s.forkEntries.put address .default }, [.created address])
    else none
  | .bind fork bindTo inboxSize granted =>
    if s.inlets = none ∧ (s.forkEntries.lookup fork).isSome then
      some (s.bind fork bindTo inboxSize granted)
    else none
  | .drop fork =>
    if s.inlets = none then (s.forkEntries.lookup fork).map (s.drop fork) else none

/-! ### What a step can do -/

/-- There is a node for the address. -/
def Reachable (s : SubnetContext M) (n : ℕ) (dst : Address) : Prop :=
  ∃ node ∈ s.nodes[n]?, node.subnet.Mem dst

/-- The steps. What changes nothing but `inlets` is one of them, whatever it is for. -/
inductive Moves (s : SubnetContext M) : Label M → SubnetContext M → List (Mark M) → Prop
  | idle {l : Label M} (inlets : Option Inlets) : Moves s l { s with inlets } []
  | acceptPriority {n : ℕ} {dst : Address} {envelope : Envelope M} {isOpen : Bool}
      (hreach : s.Reachable n dst) :
      Moves s (.send n dst .priority envelope isOpen) (s.push .priority ⟨dst, envelope, none⟩).1
        [.accepted .priority ⟨dst, envelope, none⟩]
  | acceptRegular {n : ℕ} {dst : Address} {envelope : Envelope M} {isOpen : Bool}
      (hreach : s.Reachable n dst) (hfree : s.available n ≠ 0) :
      Moves s (.send n dst .regular envelope isOpen)
        ((s.acquire n).push .regular ⟨dst, envelope, some n⟩).1
        [.accepted .regular ⟨dst, envelope, some n⟩]
  | lose {l : Label M} {lane : Lane} {m : Message M} {rest : List (Message M)}
      (hrx : s.rx lane = m :: rest)
      (hnone : s.forkEntries.lookup (s.route m.dst) = none) :
      Moves s l ({ s with rx := update s.rx lane rest }.release m) [.taken lane m none]
  | absorb {l : Label M} {m : Message M} {rest : List (Message M)} {replyTo : Option Address}
      {id : BitVec 64} (hrx : s.rx .priority = m :: rest)
      (hping : m.envelope.content = .ping replyTo id)
      {f : ForkEntry M → ForkEntry M} (hf : ∀ e, (f e).inbox = e.inbox) :
      Moves s l { s with
          rx := update s.rx .priority rest
          forkEntries := s.forkEntries.modify (s.route m.dst) f } [.taken .priority m none]
  | answer {l : Label M} {m : Message M} {rest : List (Message M)} {replyTo : Option Address}
      {id : BitVec 64} (hrx : s.rx .priority = m :: rest)
      (hping : m.envelope.content = .ping replyTo id) {n : ℕ} {dst : Address}
      {envelope : Envelope M} (hreach : s.Reachable n dst)
      (hpong : envelope.content = .ping none id) :
      Moves s l ({ s with rx := update s.rx .priority rest }.push .priority ⟨dst, envelope, none⟩).1
        [.taken .priority m none, .accepted .priority ⟨dst, envelope, none⟩]
  | deliver {l : Label M} {lane : Lane} {m : Message M} {rest : List (Message M)}
      (hrx : s.rx lane = m :: rest)
      (hfork : (s.forkEntries.lookup (s.route m.dst)).isSome = true)
      (hother : ¬ (lane = .priority ∧ ∃ replyTo id, m.envelope.content = .ping replyTo id)) :
      Moves s l { s with
          rx := update s.rx lane rest
          forkEntries := s.forkEntries.modify (s.route m.dst) fun e => e.push lane m }
        [.taken lane m (some (s.route m.dst))]
  | receive {l : Label M} {fork : Address} {lane : Lane} {m : Message M} {rest : List (Message M)}
      {entry : ForkEntry M} {i : Inlets} (hinlets : s.inlets = some i) (hlane : i.lane = .regular)
      (hself : i.fork = fork) (hfork : s.forkEntries.lookup fork = some entry)
      (hinbox : entry.inbox lane = m :: rest)
      (hfirst : lane = .regular → entry.inbox .priority = []) :
      Moves s l ({ s with inlets := none }.pop fork lane m rest).1 [.received fork lane m]
  | create {a : Address} (hsome : s.forkEntries.entries ≠ [])
      (hin : (ofNet s.subnetAddress).Mem a)
      (hnone : s.forkEntries.lookup a = none) :
      Moves s (.fork a) { s with forkEntries := s.forkEntries.put a .default } [.created a]
  | bind {fork : Address} {bindTo : NetAddress} {inboxSize : ℕ} {granted : Bool}
      {registry : Registry ℕ}
      (hfork : (s.forkEntries.lookup fork).isSome = true)
      (hfree : entry AddressRange.cmp (.ofNet bindTo) s.boundSubnets = none)
      (hregister : s.registry.register bindTo s.nodes.length = .ok registry) :
      Moves s (.bind fork bindTo inboxSize granted) { s with
          registry
          nodes := s.nodes ++ [.new bindTo inboxSize]
          boundSubnets := insert AddressRange.cmp (.ofNet bindTo) fork s.boundSubnets }
        [.bound fork (.ofNet bindTo)]
  | drop {fork : Address} {entry : ForkEntry M} (hfork : s.forkEntries.lookup fork = some entry) :
      Moves s (.drop fork) (s.drop fork entry).1
        ((entry.inbox .priority ++ entry.inbox .regular).map .discarded)

variable {s s' : SubnetContext M} {l : Label M} {marks : List (Mark M)} {lane : Lane}
  {m : Message M} {rest : List (Message M)} {fork a : Address}

/-- A send is one of the moves. -/
theorem moves_send {n : ℕ} (hreach : s.Reachable n dst)
    (h : s.send n dst lane envelope isOpen = (s', marks)) :
    Moves s (.send n dst lane envelope isOpen) s' marks := by
  cases lane with
  | priority =>
    rw [send] at h
    split at h
    · obtain ⟨rfl, rfl⟩ := Prod.mk.inj h
      exact .acceptPriority hreach
    · obtain ⟨rfl, rfl⟩ := Prod.mk.inj h
      exact .idle s.inlets
  | regular =>
    rw [send] at h
    split at h
    · obtain ⟨rfl, rfl⟩ := Prod.mk.inj h
      exact .idle s.inlets
    case isFalse hfree =>
      split at h
      · obtain ⟨rfl, rfl⟩ := Prod.mk.inj h
        exact .acceptRegular hreach hfree
      · obtain ⟨rfl, rfl⟩ := Prod.mk.inj h
        exact .idle s.inlets

/-- The subnets of the nodes. -/
def subnets (s : SubnetContext M) : List AddressRange := s.nodes.map Node.subnet

theorem reachable_iff {n : ℕ} : s.Reachable n dst ↔ ∃ r, s.subnets[n]? = some r ∧ r.Mem dst := by
  rw [Reachable, subnets]
  simp [mem_def]

/-- What holds of the forks and the bindings of an actor: subnets that are bound do not overlap one
another nor the subnet of the actor, which is registered as long as there is a fork. -/
structure Wf (s : SubnetContext M) : Prop where
  sorted : Sorted AddressRange.cmp s.boundSubnets
  nets : ∀ e ∈ s.boundSubnets, ∃ n, e.1 = ofNet n
  apart : ∀ e ∈ s.boundSubnets, (ofNet s.subnetAddress).cmp e.1 ≠ .eq
  binders : ∀ e ∈ s.boundSubnets, (s.forkEntries.lookup e.2).isSome = true
  forks : ∀ a, (s.forkEntries.lookup a).isSome = true →
    (ofNet s.subnetAddress).Mem a
  registered : ∀ a, (s.forkEntries.lookup a).isSome = true →
    (.ofNet s.subnetAddress, 0) ∈ s.registry.networks
  nodes : ∀ e ∈ s.registry.networks, s.subnets[e.2]? = some e.1
  plain : ∀ m ∈ s.rx .priority, m.permit = none

/-- The registry leads to a node. -/
theorem Wf.reachable (h : s.Wf) {n : ℕ} (hlook : s.registry.lookup dst = some n) :
    s.Reachable n dst := by
  obtain ⟨e, he, rfl⟩ := map_eq_some_iff.mp hlook
  obtain ⟨hmem, hcmp⟩ := Registry.peekEntry_spec he
  exact reachable_iff.mpr ⟨e.1, h.nodes e hmem, cmp_ofAddress.mp hcmp⟩

/-- All that a turn of `process_inlets` can do. -/
private theorem moves_turn (h : s.Wf) (hturn : s.turn lane isOpen = some (s', marks)) :
    Moves s l s' marks := by
  rw [turn] at hturn
  cases hrx : s.rx lane with
  | nil => simp [hrx] at hturn
  | cons m rest =>
    simp only [hrx, Option.some.injEq] at hturn
    rw [SubnetContext.deliver.eq_def] at hturn
    dsimp only at hturn
    split at hturn
    case isFalse hnone =>
      obtain ⟨rfl, rfl⟩ := Prod.mk.inj hturn
      exact .lose hrx (not_isSome_iff_eq_none.mp hnone)
    case isTrue hfork =>
      split at hturn
      case h_1 replyTo pingId hping =>
        -- a ping that asks for a reply
        rw [sendTo] at hturn
        cases hlook : s.registry.lookup replyTo with
        | none =>
          simp only [hlook] at hturn
          obtain ⟨rfl, rfl⟩ := Prod.mk.inj hturn
          have hmove := Moves.absorb (l := l) hrx hping (f := id) fun _ => rfl
          rwa [Roster.modify_id] at hmove
        | some n =>
          simp only [hlook, send] at hturn
          split at hturn
          · obtain ⟨rfl, rfl⟩ := Prod.mk.inj hturn
            exact .answer hrx hping (h.reachable hlook) rfl
          · obtain ⟨rfl, rfl⟩ := Prod.mk.inj hturn
            have hmove := Moves.absorb (l := l) hrx hping (f := id) fun _ => rfl
            rwa [Roster.modify_id] at hmove
      case h_2 pingId hping =>
        obtain ⟨rfl, rfl⟩ := Prod.mk.inj hturn
        exact .absorb hrx hping fun _ => rfl
      case h_3 hsome hnone =>
        obtain ⟨rfl, rfl⟩ := Prod.mk.inj hturn
        refine .deliver hrx hfork ?_
        rintro ⟨rfl, replyTo, id, hping⟩
        cases replyTo with
        | none => exact hnone id rfl hping
        | some replyTo => exact hsome replyTo id rfl hping

/-- A `recv` is one of the moves. -/
private theorem moves_recv {i : Inlets} (hinlets : s.inlets = some i) (hlane : i.lane = .regular) :
    Moves s l ({ s with inlets := none }.recv i.fork).1
      ({ s with inlets := none }.recv i.fork).2 := by
  rw [recv]
  cases hfork : s.forkEntries.lookup i.fork with
  | none => exact .idle none
  | some entry =>
    dsimp only
    split
    case h_1 m rest _ hpriority => exact .receive hinlets hlane rfl hfork hpriority (by simp)
    case h_2 m rest hpriority hregular =>
      exact .receive hinlets hlane rfl hfork hregular fun _ => hpriority
    case h_3 => exact .idle none

/-- **Every step** is one of `Moves`. -/
theorem moves_of_call (h : s.Wf) (hcall : s.call l = some (s', marks)) : Moves s l s' marks := by
  cases l with
  | send n dst lane envelope isOpen =>
    rw [call] at hcall
    split at hcall
    case isTrue hnode => exact moves_send hnode (some.inj hcall)
    case isFalse => contradiction
  | enter fork receives =>
    rw [call] at hcall
    split at hcall
    case isTrue =>
      obtain ⟨rfl, rfl⟩ := Prod.mk.inj (some.inj hcall)
      exact .idle _
    case isFalse => contradiction
  | turn isOpen =>
    obtain ⟨i, -, hturn⟩ := bind_eq_some_iff.mp hcall
    exact moves_turn h hturn
  | stop contended =>
    obtain ⟨i, hinlets, hstop⟩ := bind_eq_some_iff.mp hcall
    split at hstop
    case isFalse => contradiction
    case isTrue =>
      have hstop' := some.inj hstop
      rw [SubnetContext.stop] at hstop'
      cases hlane : i.lane with
      | priority =>
        rw [hlane] at hstop'
        obtain ⟨rfl, rfl⟩ := Prod.mk.inj hstop'
        exact .idle _
      | regular =>
        rw [hlane] at hstop'
        dsimp only at hstop'
        split at hstop'
        · have hmove := moves_recv (l := .stop contended) hinlets hlane
          rwa [hstop'] at hmove
        · obtain ⟨rfl, rfl⟩ := Prod.mk.inj hstop'
          exact .idle _
  | fail reason =>
    obtain ⟨i, -, hfail⟩ := map_eq_some_iff.mp hcall
    obtain ⟨rfl, rfl⟩ := Prod.mk.inj hfail
    exact .idle _
  | fork address =>
    rw [call] at hcall
    split at hcall
    case isTrue hok =>
      obtain ⟨rfl, rfl⟩ := Prod.mk.inj (some.inj hcall)
      exact .create hok.2.1 hok.2.2.1 hok.2.2.2
    case isFalse => contradiction
  | bind fork bindTo inboxSize granted =>
    rw [call] at hcall
    split at hcall
    case isFalse => contradiction
    case isTrue hok =>
      have hbind := some.inj hcall
      rw [SubnetContext.bind] at hbind
      cases hentry : entry AddressRange.cmp (.ofNet bindTo) s.boundSubnets with
      | some e =>
        simp only [hentry] at hbind
        obtain ⟨rfl, rfl⟩ := Prod.mk.inj hbind
        exact .idle s.inlets
      | none =>
        simp only [hentry] at hbind
        split at hbind
        · cases hregister : s.registry.register bindTo s.nodes.length with
          | error n =>
            simp only [hregister] at hbind
            obtain ⟨rfl, rfl⟩ := Prod.mk.inj hbind
            exact .idle s.inlets
          | ok registry =>
            simp only [hregister] at hbind
            obtain ⟨rfl, rfl⟩ := Prod.mk.inj hbind
            exact .bind hok.2 hentry hregister
        · obtain ⟨rfl, rfl⟩ := Prod.mk.inj hbind
          exact .idle s.inlets
  | drop fork =>
    rw [call] at hcall
    split at hcall
    case isFalse => contradiction
    case isTrue =>
      obtain ⟨entry, hfork, hdrop⟩ := map_eq_some_iff.mp hcall
      have hmove := Moves.drop hfork
      obtain ⟨rfl, rfl⟩ := Prod.mk.inj hdrop
      exact hmove

/-! ### Forks and bindings -/

section Frame

variable (s : SubnetContext M) (m : Message M) (n : ℕ)

@[simp] theorem release_rx : (s.release m).rx = s.rx := by
  rw [release]
  split <;> rfl

@[simp] theorem release_forkEntries : (s.release m).forkEntries = s.forkEntries := by
  rw [release]
  split <;> rfl

@[simp] theorem release_boundSubnets : (s.release m).boundSubnets = s.boundSubnets := by
  rw [release]
  split <;> rfl

@[simp] theorem release_registry : (s.release m).registry = s.registry := by
  rw [release]
  split <;> rfl

@[simp] theorem release_subnetAddress : (s.release m).subnetAddress = s.subnetAddress := by
  rw [release]
  split <;> rfl

@[simp] theorem release_inlets : (s.release m).inlets = s.inlets := by
  rw [release]
  split <;> rfl

@[simp] theorem push_rx (lane : Lane) :
    (s.push lane m).1.rx = update s.rx lane (s.rx lane ++ [m]) := rfl

private theorem map_subnet_modify (nodes : List Node) {f : Node → Node}
    (hf : ∀ node, (f node).subnet = node.subnet) :
    (nodes.modify n f).map Node.subnet = nodes.map Node.subnet := by
  refine ext_getElem? fun i => ?_
  rw [List.getElem?_map, List.getElem?_modify, List.getElem?_map]
  cases nodes[i]? with
  | none => rfl
  | some node => by_cases hi : n = i <;> simp [hi, hf]

@[simp] theorem acquire_subnets : (s.acquire n).subnets = s.subnets :=
  map_subnet_modify n s.nodes fun _ => rfl

@[simp] theorem release_subnets : (s.release m).subnets = s.subnets := by
  rw [release]
  split
  · rfl
  · exact map_subnet_modify _ s.nodes fun _ => rfl

end Frame

/-- What a fork has bound. -/
def boundBy (s : SubnetContext M) (fork : Address) : List AddressRange :=
  (s.boundSubnets.filter fun e => e.2 = fork).map Prod.fst

private theorem mem_boundBy {r : AddressRange} :
    r ∈ s.boundBy fork ↔ (r, fork) ∈ s.boundSubnets := by
  simp [boundBy]

/-- The subnets of a fork are taken off the list. -/
theorem Wf.unbind (h : s.Wf) (fork : Address) :
    Sorted AddressRange.cmp (s.unbind fork).boundSubnets ∧
      ∀ e, e ∈ (s.unbind fork).boundSubnets ↔ e ∈ s.boundSubnets ∧ e.2 ≠ fork := by
  have hkeys := nodup_of_sorted h.sorted
  have hrs : ∀ r ∈ s.boundBy fork, ∃ v, (r, v) ∈ s.boundSubnets := fun r hr =>
    ⟨fork, mem_boundBy.mp hr⟩
  obtain ⟨hsorted, hmem⟩ := foldl_remove h.sorted hrs
    (hkeys.sublist (filter_sublist.map Prod.fst))
  refine ⟨hsorted, fun e => (hmem e).trans (and_congr_right fun he => not_congr ?_)⟩
  rw [mem_boundBy]
  constructor
  · intro he'
    exact (Prod.mk.inj (inj_on_of_nodup_map hkeys he he' rfl)).2
  · rintro rfl
    exact he

/-- Which subnets are left. -/
private theorem foldl_unregister {rs : List AddressRange} {e : AddressRange × ℕ}
    (hrs : ∀ r ∈ rs, ∃ n, r = ofNet n) :
    (e ∈ (rs.foldl (fun g r => (g.unregister (.ofRange r)).2) registry).networks →
        e ∈ registry.networks) ∧
      (e ∈ registry.networks → (∀ r ∈ rs, r.cmp e.1 ≠ .eq) →
        e ∈ (rs.foldl (fun g r => (g.unregister (.ofRange r)).2) registry).networks) := by
  induction rs generalizing registry with
  | nil => exact ⟨id, fun he _ => he⟩
  | cons r rs ih =>
    obtain ⟨⟨n, rfl⟩, hrest⟩ := forall_mem_cons.mp hrs
    refine ⟨fun he => Registry.mem_of_mem_unregister ((ih hrest).1 he), fun he hapart => ?_⟩
    obtain ⟨hr, hapart⟩ := forall_mem_cons.mp hapart
    refine (ih hrest).2 (Registry.mem_unregister_of_apart he ?_) hapart
    rw [NetAddress.ofNet_ofRange]
    exact hr

/-- A step that only moves messages. -/
private theorem Wf.of_frame (h : s.Wf) (hsubnet : s'.subnetAddress = s.subnetAddress)
    (hbound : s'.boundSubnets = s.boundSubnets) (hregistry : s'.registry = s.registry)
    (hnodes : s'.subnets = s.subnets)
    (hforks : ∀ a, (s'.forkEntries.lookup a).isSome = (s.forkEntries.lookup a).isSome)
    (hplain : ∀ m ∈ s'.rx .priority, m.permit = none) : s'.Wf where
  sorted := by rw [hbound]; exact h.sorted
  nets := by rw [hbound]; exact h.nets
  apart := by rw [hbound, hsubnet]; exact h.apart
  binders := by
    intro e he
    rw [hbound] at he
    rw [hforks]
    exact h.binders e he
  forks := by
    intro a ha
    rw [hforks] at ha
    rw [hsubnet]
    exact h.forks a ha
  registered := by
    intro a ha
    rw [hforks] at ha
    rw [hsubnet, hregistry]
    exact h.registered a ha
  nodes := by rw [hregistry, hnodes]; exact h.nodes
  plain := hplain

private theorem plain_update {rx : Lane → List (Message M)}
    (h : ∀ m ∈ rx .priority, m.permit = none) (hrx : rx lane = m :: rest) :
    ∀ m' ∈ update rx lane rest .priority, m'.permit = none := by
  intro m' hm'
  rw [update_apply] at hm'
  split at hm'
  case isTrue hlane =>
    subst hlane
    exact h m' (by rw [hrx]; exact mem_cons_of_mem _ hm')
  case isFalse => exact h m' hm'

private theorem plain_push (h : ∀ m ∈ s.rx .priority, m.permit = none) :
    ∀ m ∈ (s.push .priority ⟨dst, envelope, none⟩).1.rx .priority, m.permit = none := by
  intro m hm
  rw [push_rx, update_self] at hm
  rcases mem_append.mp hm with hold | hnew
  · exact h m hold
  · rw [mem_singleton.mp hnew]

/-- A subnet that is bound keeps the mailbox well formed. -/
private theorem Wf.bind (h : s.Wf) {bindTo : NetAddress}
    (hfork : (s.forkEntries.lookup fork).isSome = true)
    (hfree : entry AddressRange.cmp (.ofNet bindTo) s.boundSubnets = none)
    (hregister : s.registry.register bindTo s.nodes.length = .ok registry) :
    Wf { s with
      registry
      nodes := s.nodes ++ [.new bindTo inboxSize]
      boundSubnets := insert AddressRange.cmp (.ofNet bindTo) fork s.boundSubnets } := by
  have hreg := Registry.register_spec hregister
  have hnone : ∀ e ∈ s.boundSubnets, (ofNet bindTo).cmp e.1 ≠ .eq := by
    intro e he heq
    have hsome := (isSome_entry_iff h.sorted).mpr ⟨e, he, heq⟩
    rw [hfree] at hsome
    contradiction
  have hown : (ofNet s.subnetAddress).cmp (.ofNet bindTo) ≠ .eq := by
    intro heq
    have hold := (hreg _).mpr (.inr (h.registered fork hfork))
    have hnew := (hreg (.ofNet bindTo, s.nodes.length)).mpr (.inl rfl)
    have hsame := Registry.eq_of_overlap hold hnew heq
    have hzero : s.nodes.length = 0 := (Prod.mk.inj hsame).2.symm
    have hnode := h.nodes _ (h.registered fork hfork)
    rw [subnets, length_eq_zero_iff.mp hzero] at hnode
    contradiction
  refine ⟨sorted_insert_of_apart h.sorted hnone, ?_, ?_, ?_, h.forks, ?_, ?_, h.plain⟩
  · intro e he
    rcases mem_insert.mp he with rfl | hold
    · exact ⟨bindTo, rfl⟩
    · exact h.nets e hold
  · intro e he
    rcases mem_insert.mp he with rfl | hold
    · exact hown
    · exact h.apart e hold
  · intro e he
    rcases mem_insert.mp he with rfl | hold
    · exact hfork
    · exact h.binders e hold
  · intro a ha
    exact (hreg _).mpr (.inr (h.registered a ha))
  · intro e he
    rw [subnets, map_append]
    rcases (hreg e).mp he with rfl | hold
    · have hlen : (s.nodes.map Node.subnet).length = s.nodes.length := length_map _
      rw [← hlen, List.getElem?_append_right le_rfl, Nat.sub_self]
      rfl
    · have hnode := h.nodes e hold
      have hlt := (List.getElem?_eq_some_iff.mp hnode).1
      exact (List.getElem?_append_left hlt).trans hnode

/-- Permits are all that changes. -/
theorem foldl_release (messages : List (Message M)) (s : SubnetContext M) :
    (messages.foldl release s).rx = s.rx ∧
      (messages.foldl release s).forkEntries = s.forkEntries ∧
      (messages.foldl release s).boundSubnets = s.boundSubnets ∧
      (messages.foldl release s).registry = s.registry ∧
      (messages.foldl release s).subnetAddress = s.subnetAddress ∧
      (messages.foldl release s).subnets = s.subnets := by
  induction messages generalizing s with
  | nil => exact ⟨rfl, rfl, rfl, rfl, rfl, rfl⟩
  | cons m messages ih =>
    obtain ⟨h₁, h₂, h₃, h₄, h₅, h₆⟩ := ih (s.release m)
    simp only [foldl_cons, h₁, h₂, h₃, h₄, h₅, h₆, release_rx, release_forkEntries,
      release_boundSubnets, release_registry, release_subnetAddress, release_subnets, and_self]

/-- The entry of a fork is removed. -/
private theorem Wf.without (h : s.Wf) (fork : Address) : (s.without fork).Wf := by
  obtain ⟨hsorted, hmem⟩ := h.unbind fork
  have hnets : ∀ r ∈ s.boundBy fork, ∃ n, r = ofNet n := fun r hr =>
    h.nets _ (mem_boundBy.mp hr)
  refine ⟨hsorted, fun e he => h.nets e ((hmem e).mp he).1,
    fun e he => h.apart e ((hmem e).mp he).1, ?_,
    fun a ha => h.forks a (isSome_lookup_erase.mp ha).2, ?_,
    fun e he => h.nodes e ((foldl_unregister hnets).1 he), h.plain⟩
  · intro e he
    obtain ⟨he, hne⟩ := (hmem e).mp he
    exact isSome_lookup_erase.mpr ⟨hne, h.binders e he⟩
  · intro a ha
    refine (foldl_unregister hnets).2 (h.registered a (isSome_lookup_erase.mp ha).2) ?_
    intro r hr heq
    exact h.apart _ (mem_boundBy.mp hr) (cmp_comm.mp heq)

/-- A fork that is dropped leaves a mailbox that is well formed. -/
private theorem Wf.drop (h : s.Wf) (fork : Address) (entry : ForkEntry M) :
    (s.drop fork entry).1.Wf := by
  obtain ⟨hrx, hentries, hbound, hreg, hsubnet, hnodes⟩ :=
    foldl_release (entry.inbox .priority ++ entry.inbox .regular) (s.without fork)
  have hwithout := h.without fork
  have hlast := hwithout.of_frame hsubnet hbound hreg hnodes (fun a => by rw [hentries])
    (by rw [hrx]; exact hwithout.plain)
  rw [SubnetContext.drop]
  dsimp only
  generalize (entry.inbox .priority ++ entry.inbox .regular).foldl release (s.without fork) = t
    at hlast ⊢
  split
  case isFalse => exact hlast
  case isTrue hnil =>
    -- there is no fork any more
    have hnone : ∀ a, (t.forkEntries.lookup a).isSome ≠ true := by
      intro a ha
      obtain ⟨e, he⟩ := isSome_iff_exists.mp ha
      have hin := lookup_eq_some_iff.mp he
      rw [hnil] at hin
      exact not_mem_nil hin
    exact ⟨hlast.sorted, hlast.nets, hlast.apart, hlast.binders, hlast.forks,
      fun a ha => absurd ha (hnone a),
      fun e he => hlast.nodes e (Registry.mem_of_mem_unregister he), hlast.plain⟩

/-- A new mailbox. -/
theorem wf_init {subnetAddress : NetAddress} {main : Address} (h : (ofNet subnetAddress).Mem main) :
    (init subnetAddress main inboxSize : SubnetContext M).Wf where
  sorted := List.Pairwise.nil
  nets e he := absurd he not_mem_nil
  apart e he := absurd he not_mem_nil
  binders e he := absurd he not_mem_nil
  forks a ha := by
    rw [init, lookup_put] at ha
    split at ha
    case isTrue ha' => exact ha' ▸ h
    case isFalse => simp at ha
  registered a _ := mem_singleton_self _
  nodes e he := by
    rw [mem_singleton.mp he]
    rfl
  plain m hm := absurd hm not_mem_nil

/-- **Every step keeps the forks and the bindings in order.** -/
theorem Wf.moves (h : s.Wf) (hmove : Moves s l s' marks) : s'.Wf := by
  cases hmove with
  | idle inlets => exact h.of_frame rfl rfl rfl rfl (fun _ => rfl) h.plain
  | acceptPriority => exact h.of_frame rfl rfl rfl rfl (fun _ => rfl) (plain_push h.plain)
  | acceptRegular =>
    exact h.of_frame rfl rfl rfl (acquire_subnets s _) (fun _ => rfl) h.plain
  | lose hrx _ =>
    refine h.of_frame (release_subnetAddress ..) (release_boundSubnets ..) (release_registry ..)
      (release_subnets ..) (fun _ => by rw [release_forkEntries]) ?_
    rw [release_rx]
    exact plain_update h.plain hrx
  | absorb hrx _ _ =>
    exact h.of_frame rfl rfl rfl rfl (fun _ => isSome_lookup_modify ..) (plain_update h.plain hrx)
  | answer hrx =>
    exact h.of_frame rfl rfl rfl rfl (fun _ => rfl) (plain_push (plain_update h.plain hrx))
  | deliver hrx _ _ =>
    exact h.of_frame rfl rfl rfl rfl (fun _ => isSome_lookup_modify ..) (plain_update h.plain hrx)
  | receive =>
    refine h.of_frame (release_subnetAddress ..) (release_boundSubnets ..) (release_registry ..)
      (release_subnets ..) (fun _ => ?_) ?_
    · rw [pop, release_forkEntries]
      exact isSome_lookup_modify ..
    · rw [pop, release_rx]
      exact h.plain
  | @create a hsome hin hnone =>
    have hforks : ∀ b, ((s.forkEntries.put a .default).lookup b).isSome = true →
        b = a ∨ (s.forkEntries.lookup b).isSome = true := by
      intro b hb
      rw [lookup_put] at hb
      split at hb
      case isTrue hba => exact .inl hba
      case isFalse => exact .inr hb
    obtain ⟨e, he⟩ := exists_mem_of_ne_nil _ hsome
    have hregistered := h.registered e.1
      (isSome_iff_exists.mpr ⟨e.2, lookup_eq_some_iff.mpr he⟩)
    refine ⟨h.sorted, h.nets, h.apart, fun e he => ?_, fun b hb => ?_, fun _ _ => hregistered,
      h.nodes, h.plain⟩
    · rw [lookup_put]
      split
      · rfl
      · exact h.binders e he
    · rcases hforks b hb with rfl | hold
      · exact hin
      · exact h.forks b hold
  | bind hfork hfree hregister => exact h.bind hfork hfree hregister
  | drop _ => exact h.drop _ _

end SubnetContext

end Mailbox

end Mm1
