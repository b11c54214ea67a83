import Mathlib.Data.Finset.Basic
import Mathlib.Data.Fintype.Defs
import Mm1.Address.Range
import Mm1.Lib.Transition
import Mm1.Pool.Lease

/-!
# The registry and the lives of actors

`do_spawn` leases a subnet from the pool of the node, and `Container::create` registers a node,
which holds the lease, under the range of the subnet. The subnet is unregistered by address:
once in `Container::run`, after its loop, and again when the last context of the actor is
dropped, which is later. A node that is not registered any more is dropped at some time, and
with it the lease, so that the subnet can be leased again.

* `Registry`: the tree of the registered subnets;
* `RtApi.step`: spawning and ending actors that share one pool and one registry;
* `RtApi.registered_of_clean`: as long as no subnet is registered while a stopped actor that had
  it still has a context, each actor stays registered until it stops, and then can unregister;
* `RtApi.unregistered_by_predecessor`: otherwise its predecessor unregisters it.
-/

namespace Mm1

open Transition Option List Function AddressRange

/-- The nodes by the range of their subnet. -/
structure Registry (ν : Type*) where
  networks : List (AddressRange × ν)
  /-- `insert` leaves the tree alone when there is an equal key -/
  distinct : networks.Pairwise fun e e' => e.1.cmp e'.1 ≠ .eq

namespace Registry

variable {ν : Type*} {s s' : Registry ν} {l : NetAddress} {node : ν} {r : AddressRange}
  {a : Address} {e e' : AddressRange × ν}

def new : Registry ν := ⟨[], .nil⟩

/-- `TreeIndex::peek_entry`. -/
def peekEntry (s : Registry ν) (r : AddressRange) : Option (AddressRange × ν) :=
  s.networks.find? fun e => r.cmp e.1 = .eq

/-- `TreeIndex::remove`. -/
def remove (s : Registry ν) (r : AddressRange) : Registry ν where
  networks := s.networks.eraseP fun e => r.cmp e.1 = .eq
  distinct := s.distinct.sublist eraseP_sublist

/-- An error gives the node back. -/
def register (s : Registry ν) (subnet : NetAddress) (node : ν) : Except ν (Registry ν) :=
  let addressRange := ofNet subnet
  if h : ∀ e ∈ s.networks, addressRange.cmp e.1 ≠ .eq then
    .ok ⟨(addressRange, node) :: s.networks, pairwise_cons.mpr ⟨h, s.distinct⟩⟩
  else .error node

def unregister (s : Registry ν) (subnet : NetAddress) : Bool × Registry ν :=
  let soughtRange := ofNet subnet
  match s.peekEntry soughtRange with
  | none => (false, s)
  | some (foundRange, _) =>
    if foundRange.cmp soughtRange ≠ .eq then (false, s) else (true, s.remove soughtRange)

def lookup (s : Registry ν) (address : Address) : Option ν :=
  (s.peekEntry (.ofAddress address)).map Prod.snd

/-- Entries that overlap are the same. -/
theorem eq_of_overlap (he : e ∈ s.networks) (he' : e' ∈ s.networks)
    (h : e.1.cmp e'.1 = .eq) : e = e' := by
  by_contra hne
  have : Std.Symm fun e e' : AddressRange × ν => e.1.cmp e'.1 ≠ .eq :=
    ⟨fun _ _ hne heq => hne (cmp_comm.mp heq)⟩
  exact s.distinct.forall he he' hne h

theorem peekEntry_spec (h : s.peekEntry r = some e) : e ∈ s.networks ∧ r.cmp e.1 = .eq :=
  ⟨mem_of_find?_eq_some h, by simpa using List.find?_some h⟩

private theorem peekEntry_of_mem (he : e ∈ s.networks) (h : r.cmp e.1 = .eq) :
    ∃ e', s.peekEntry r = some e' := by
  refine isSome_iff_exists.mp (List.find?_isSome.mpr ⟨e, he, by simpa using h⟩)

theorem register_spec (h : s.register l node = .ok s') (e : AddressRange × ν) :
    e ∈ s'.networks ↔ e = (.ofNet l, node) ∨ e ∈ s.networks := by
  simp only [register] at h
  split at h
  case isTrue =>
    cases h
    exact mem_cons
  case isFalse => contradiction

/-- Nothing overlaps the subnet, and nothing is removed. -/
theorem unregister_eq_self (h : ∀ e ∈ s.networks, (ofNet l).cmp e.1 ≠ .eq) :
    s.unregister l = (false, s) := by
  have hnone : s.peekEntry (.ofNet l) = none :=
    List.find?_eq_none.mpr fun e he => by simpa using h e he
  rw [unregister, hnone]

/-- **A registered subnet can be unregistered**, and it is the only one to go. -/
theorem unregister_of_mem (h : (.ofNet l, node) ∈ s.networks) :
    ∃ s', s.unregister l = (true, s') ∧ ∀ e, e ∈ s'.networks ↔
      e ∈ s.networks ∧ (ofNet l).cmp e.1 ≠ .eq := by
  obtain ⟨e', he'⟩ := peekEntry_of_mem h (cmp_self _)
  obtain ⟨-, hcmp⟩ := peekEntry_spec he'
  obtain ⟨x, front, back, hfront, hx, hsplit, herase⟩ :=
    exists_of_eraseP (p := fun e => (ofNet l).cmp e.1 = .eq) h
      (by simpa using cmp_self _)
  refine ⟨s.remove (.ofNet l), ?_, fun e => ⟨fun he => ?_, fun he => ?_⟩⟩
  · simp only [unregister, he', cmp_comm.mp hcmp, ne_eq, not_true_eq_false, if_false]
  · simp only [remove, herase, mem_append] at he
    refine ⟨eraseP_subset (by rw [herase]; exact mem_append.mpr he), fun heq => ?_⟩
    rcases he with he | he
    · exact hfront e he (by simpa using heq)
    · -- both `x` and `e` would be the entry of the subnet, but the keys are distinct
      have hpair := s.distinct
      rw [hsplit] at hpair
      have hxe := (pairwise_cons.mp (pairwise_append.mp hpair).2.1).1 e he
      have hxmem : x ∈ s.networks := by rw [hsplit]; simp
      have hemem : e ∈ s.networks := by rw [hsplit]; simp [he]
      have hxeq : _ = x := eq_of_overlap h hxmem (by simpa using hx)
      have heeq : _ = e := eq_of_overlap h hemem heq
      exact hxe (by rw [← hxeq, ← heeq]; exact cmp_self _)
  · exact (mem_eraseP_of_neg (by simpa using he.2)).mpr he.1

theorem mem_of_mem_unregister (he : e ∈ (s.unregister l).2.networks) : e ∈ s.networks := by
  rw [unregister] at he
  split at he
  case h_1 => exact he
  case h_2 =>
    split at he
    case isTrue => exact he
    case isFalse => exact eraseP_subset he

/-- What does not overlap the subnet stays. -/
theorem mem_unregister_of_apart (he : e ∈ s.networks)
    (hne : (ofNet l).cmp e.1 ≠ .eq) : e ∈ (s.unregister l).2.networks := by
  rw [unregister]
  split
  case h_1 => exact he
  case h_2 =>
    split
    case isTrue => exact he
    case isFalse => exact (mem_eraseP_of_neg (by simpa using hne)).mpr he

/-- **A registered subnet is found** under each of its addresses. -/
theorem lookup_of_mem (h : (r, node) ∈ s.networks) (ha : r.Mem a) : s.lookup a = some node := by
  obtain ⟨e, he⟩ := peekEntry_of_mem h (cmp_ofAddress.mpr ha)
  obtain ⟨hmem, hcmp⟩ := peekEntry_spec he
  have ha' : e.1.Mem a := cmp_ofAddress.mp hcmp
  have heq : e = (r, node) := eq_of_overlap hmem h (ha'.overlap ha)
  rw [lookup, he, heq, map_some]

end Registry

/-! ### Actors that share a pool and a registry -/

/-- Where an actor with contexts is. -/
inductive Stage where
  /-- in the loop of `Container::run` -/
  | running
  /-- `run` has left its loop and unregistered the subnet -/
  | stopped
  /-- the future of `run` has been dropped inside its loop -/
  | aborted
  deriving DecidableEq

/-- The life of an actor. -/
inductive Life where
  | absent
  /-- `do_spawn` has leased the subnet -/
  | leased (subnet : NetAddress)
  /-- `Container::create` has registered the subnet -/
  | created (subnet : NetAddress) (mainFork : Address)
  | alive (stage : Stage) (subnet : NetAddress) (mainFork : Address)
      (forkEntries : Finset Address)
  | gone
  deriving DecidableEq

namespace Life

/-- The subnet of an actor that `run` has not unregistered yet. -/
def registered : Life → Option NetAddress
  | .created subnet _ | .alive .running subnet _ _ => some subnet
  | _ => none

/-- The subnet of an actor that has unregistered it and still has a context. -/
def unregistered : Life → Option NetAddress
  | .alive .stopped subnet _ _ => some subnet
  | _ => none

end Life

/-- What the actors `ι` of a node share. A node of the registry is given by its actor. -/
structure RtApi (ι : Type) where
  subnetPool : Pool
  registry : Registry ι
  /-- the leases that are not dropped yet -/
  leases : ι → Option NetAddress
  actors : ι → Life

inductive RtAction (ι : Type) where
  /-- `do_spawn` up to its lease -/
  | requestAddress (a : ι) (mask : NetMask)
  | create (a : ι)
  /-- `run` is polled for the first time -/
  | run (a : ι)
  /-- a context is forked, with the address `f` -/
  | fork (a : ι) (f : Address)
  /-- `run` leaves its loop -/
  | stop (a : ι)
  /-- the future of `run` is dropped -/
  | abort (a : ι)
  | dropContext (a : ι) (f : Address)
  /-- the last copy of a node that is not registered is dropped -/
  | dropNode (a : ι)

/-- The actor whose container is created. -/
def RtAction.created {ι : Type} : RtAction ι → Option ι
  | .create a => some a
  | _ => none

namespace RtApi

variable {ι : Type} [DecidableEq ι]

def init (ι : Type) (n : NetAddress) : Option (RtApi ι) := do
  let subnetPool ← Pool.new n
  return { subnetPool, registry := .new, leases := fun _ => none, actors := fun _ => .absent }

def setActor (s : RtApi ι) (a : ι) (life : Life) : RtApi ι :=
  { s with actors := update s.actors a life }

/-- `Lease::drop`. -/
def dropLease (s : RtApi ι) (a : ι) (l : NetAddress) : Option (RtApi ι) := do
  let subnetPool ← s.subnetPool.drop l
  return { s with subnetPool, leases := update s.leases a none }

/-- `Container::create` after the subnet is registered: the main fork gets its address. -/
def mainFork (subnet : NetAddress) : Option (Except LeaseError Address) := do
  let actorSubnetPool ← Pool.new subnet
  let (lease, _) ← actorSubnetPool.lease .max
  return lease.map NetAddress.address

def step (s : RtApi ι) : RtAction ι → Option (RtApi ι)
  | .requestAddress a mask =>
    match s.actors a with
    | .absent => do
      let (lease, subnetPool) ← s.subnetPool.lease mask
      match lease with
      | .error _ => return { s with subnetPool }.setActor a .gone
      | .ok l =>
        return { s with
          subnetPool, leases := update s.leases a (some l) }.setActor a (.leased l)
    | _ => none
  | .create a =>
    match s.actors a with
    | .leased l =>
      match s.registry.register l a with
      | .error _ => (s.setActor a .gone).dropLease a l
      | .ok registry => do
        match ← mainFork l with
        | .error _ => return { s with registry }.setActor a .gone
        | .ok f => return { s with registry }.setActor a (.created l f)
    | _ => none
  | .run a =>
    match s.actors a with
    | .created l f => some (s.setActor a (.alive .running l f {f}))
    | _ => none
  | .fork a f =>
    match s.actors a with
    | .alive stage l main forkEntries =>
      if f ∈ forkEntries then none
      else some (s.setActor a (.alive stage l main (insert f forkEntries)))
    | _ => none
  | .stop a =>
    match s.actors a with
    | .alive .running l main forkEntries =>
      -- `assert!(unregistered)`
      match s.registry.unregister l with
      | (false, _) => none
      | (true, registry) =>
        some ({ s with registry }.setActor a (.alive .stopped l main forkEntries))
    | _ => none
  | .abort a =>
    match s.actors a with
    -- there is no context yet that could unregister the subnet
    | .created _ _ => some (s.setActor a .gone)
    | .alive .running l main forkEntries =>
      some (s.setActor a (.alive .aborted l main forkEntries))
    | _ => none
  | .dropContext a f =>
    match s.actors a with
    | .alive stage l main forkEntries =>
      -- the main context lives in the future of `run`
      if f ∉ forkEntries ∨ stage = .running ∧ f = main then none
      else if forkEntries.erase f = ∅ then
        some ({ s with registry := (s.registry.unregister l).2 }.setActor a .gone)
      else some (s.setActor a (.alive stage l main (forkEntries.erase f)))
    | _ => none
  | .dropNode a =>
    match s.actors a, s.leases a with
    | .leased _, _ | _, none => none
    | _, some l => if ∀ e ∈ s.registry.networks, e.2 ≠ a then s.dropLease a l else none

/-- **The condition.** No subnet is registered while an actor that has unregistered an overlapping
one still has a context, which is going to unregister it again. -/
def CleanRegister (s : RtApi ι) (act : RtAction ι) : Prop :=
  ∀ a ∈ act.created, ∀ l ∈ s.leases a, ∀ b, ∀ l' ∈ (s.actors b).unregistered,
    (ofNet l').cmp (.ofNet l) ≠ .eq

instance [Fintype ι] (s : RtApi ι) (act : RtAction ι) : Decidable (CleanRegister s act) :=
  inferInstanceAs (Decidable (∀ a ∈ act.created, _))

/-- What the registry has to hold for an actor. -/
def Fits (registry : Registry ι) (lease : Option NetAddress) (a : ι) : Life → Prop
  | .absent => lease = none
  | .leased l => lease = some l ∧ ∀ e ∈ registry.networks, e.2 ≠ a
  | .created l _ | .alive .aborted l _ _ => lease = some l ∧ (.ofNet l, a) ∈ registry.networks
  | .alive .running l main forkEntries =>
    (lease = some l ∧ (.ofNet l, a) ∈ registry.networks) ∧ main ∈ forkEntries
  | .alive .stopped l _ _ => ∀ e ∈ registry.networks, (ofNet l).cmp e.1 ≠ .eq
  | .gone => True

/-- The leases are aligned, and no address of one is free or in another one. -/
structure Leased (pool : Pool) (leases : ι → Option NetAddress) : Prop where
  ok : pool.Ok
  aligned : ∀ a l, leases a = some l → l.IsAligned
  taken : ∀ a l, leases a = some l → ∀ x, l.Contains x → ¬ pool.Free x
  disjoint : ∀ a b l l', leases a = some l → leases b = some l' → a ≠ b → l.Disjoint l'

structure Inv (s : RtApi ι) : Prop where
  leased : Leased s.subnetPool s.leases
  entry : ∀ e ∈ s.registry.networks, ∃ l, s.leases e.2 = some l ∧ e.1 = .ofNet l
  life : ∀ a, Fits s.registry (s.leases a) a (s.actors a)

variable {s s' s₀ : RtApi ι} {a b : ι} {l : NetAddress} {life : Life} {registry : Registry ι}
  {pool pool' : Pool} {leases : ι → Option NetAddress} {mask : NetMask}

/-- A new lease is disjoint from the others. -/
private theorem Leased.lease (h : Leased pool leases)
    (hl : pool.lease mask = some (.ok l, pool')) :
    Leased pool' (update leases a (some l)) := by
  rcases h.ok.lease mask with ⟨l', p, heq, -, hal, hfree, hok, hfree'⟩ | ⟨p, heq, -⟩
  case inr => exact nomatch heq.symm.trans hl
  obtain ⟨hl', hp⟩ := Prod.mk.inj (some.inj (heq.symm.trans hl))
  obtain rfl := Except.ok.inj hl'
  subst hp
  -- the new lease was free, so it meets none of the old ones
  have hnew : ∀ b l, leases b = some l → l.Disjoint l' :=
    fun b l hb x hx => h.taken b l hb x hx.1 (hfree x hx.2)
  refine ⟨hok, fun b l hb => ?_, fun b l hb x hx hx' => ?_, fun b c l k hb hc hbc => ?_⟩
  · by_cases hba : b = a
    · rw [hba, update_self] at hb
      exact some.inj hb ▸ hal
    · rw [update_of_ne hba] at hb
      exact h.aligned b l hb
  · obtain ⟨hx', hnot⟩ := (hfree' x).mp hx'
    by_cases hba : b = a
    · rw [hba, update_self] at hb
      exact hnot (some.inj hb ▸ hx)
    · rw [update_of_ne hba] at hb
      exact h.taken b l hb x hx hx'
  · by_cases hba : b = a
    · have hca : c ≠ a := fun hca => hbc (hba.trans hca.symm)
      rw [hba, update_self] at hb
      rw [update_of_ne hca] at hc
      exact some.inj hb ▸ (hnew c k hc).symm
    · rw [update_of_ne hba] at hb
      by_cases hca : c = a
      · rw [hca, update_self] at hc
        exact some.inj hc ▸ hnew b l hb
      · rw [update_of_ne hca] at hc
        exact h.disjoint b c l k hb hc hbc

omit [DecidableEq ι] in
private theorem Leased.lease_error {error : LeaseError} (h : Leased pool leases)
    (hl : pool.lease mask = some (.error error, pool')) : Leased pool' leases := by
  rcases h.ok.lease mask with ⟨l', p, heq, -⟩ | ⟨p, heq, -, hok, hfree⟩
  · exact nomatch heq.symm.trans hl
  · obtain ⟨-, rfl⟩ := Prod.mk.inj (some.inj (heq.symm.trans hl))
    exact ⟨hok, h.aligned, fun b l hb x hx hx' => h.taken b l hb x hx ((hfree x).mp hx'),
      h.disjoint⟩

/-- A lease that is dropped leaves the others disjoint. -/
private theorem Leased.drop (h : Leased pool leases) (ha : leases a = some l)
    (hdrop : pool.drop l = some pool') : Leased pool' (update leases a none) := by
  obtain ⟨p, heq, hok, hfree⟩ := h.ok.drop (h.aligned a l ha) (h.taken a l ha)
  obtain rfl := some.inj (heq.symm.trans hdrop)
  have hold : ∀ b l', update leases a none b = some l' → b ≠ a ∧ leases b = some l' := by
    intro b l' hb
    by_cases hba : b = a
    · rw [hba, update_self] at hb
      contradiction
    · rw [update_of_ne hba] at hb
      exact ⟨hba, hb⟩
  refine ⟨hok, fun b l' hb => h.aligned b l' (hold b l' hb).2, fun b l' hb x hx hx' => ?_,
    fun b c l' k hb hc => h.disjoint b c l' k (hold b l' hb).2 (hold c k hc).2⟩
  obtain ⟨hba, hb⟩ := hold b l' hb
  rcases (hfree x).mp hx' with hx' | hx'
  · exact h.taken b l' hb x hx hx'
  · exact h.disjoint b a l' l hb ha hba x ⟨hx, hx'⟩

omit [DecidableEq ι] in
private theorem inv_init {n : NetAddress} (h : init ι n = some s₀) : s₀.Inv := by
  obtain ⟨pool, hpool, hok, -⟩ := Pool.new_spec n
  simp only [init, hpool, Option.bind_eq_bind, Option.bind_some, Option.pure_def,
    Option.some.injEq] at h
  subst h
  refine ⟨⟨hok, ?_, ?_, ?_⟩, ?_, fun _ => rfl⟩ <;> intros <;> contradiction

/-- The actor `a` goes on. The registry may change in a way that suits the other actors. -/
private theorem Inv.setActor (h : s.Inv)
    (hentry : ∀ e ∈ registry.networks, e ∈ s.registry.networks ∨
      ∃ l, s.leases e.2 = some l ∧ e.1 = .ofNet l)
    (hother : ∀ b ≠ a, Fits registry (s.leases b) b (s.actors b))
    (hlife : Fits registry (s.leases a) a life) :
    ({ s with registry }.setActor a life).Inv where
  leased := h.leased
  entry e he := (hentry e he).elim (h.entry e) id
  life b := by
    by_cases hb : b = a
    · subst hb
      simpa only [RtApi.setActor, update_self] using hlife
    · simpa only [RtApi.setActor, update_of_ne hb] using hother b hb

/-- The actor goes on with the registry as it is. -/
private theorem Inv.setActor_self (h : s.Inv) (hlife : Fits s.registry (s.leases a) a life) :
    (s.setActor a life).Inv :=
  h.setActor (fun _ he => .inl he) (fun b _ => h.life b) hlife

/-- A lease is dropped that no entry of the registry stands for. -/
private theorem Inv.dropLease (h : s.Inv) (ha : s.leases a = some l)
    (hno : ∀ e ∈ s.registry.networks, e.2 ≠ a) (hlife : ∀ l', s.actors a ≠ .leased l')
    (hs : s.dropLease a l = some s') : s'.Inv := by
  simp only [RtApi.dropLease, Option.bind_eq_bind, Option.bind_eq_some_iff, Option.pure_def,
    Option.some.injEq] at hs
  obtain ⟨pool, hdrop, rfl⟩ := hs
  refine ⟨h.leased.drop ha hdrop, fun e he => ?_, fun b => ?_⟩
  · obtain ⟨l', hl', heq⟩ := h.entry e he
    exact ⟨l', by rw [← hl']; exact update_of_ne (hno e he) _ _, heq⟩
  · by_cases hb : b = a
    · subst hb
      have hfit := h.life b
      cases hlive : s.actors b with
      | absent => exact update_self _ _ _
      | leased l' => exact absurd hlive (hlife l')
      | created l' main =>
        rw [hlive] at hfit
        exact absurd rfl (hno _ hfit.2)
      | alive stage l' main forkEntries =>
        rw [hlive] at hfit
        cases stage with
        | running => exact absurd rfl (hno _ hfit.1.2)
        | stopped => exact hfit
        | aborted => exact absurd rfl (hno _ hfit.2)
      | gone => trivial
    · simpa only [update_of_ne hb] using h.life b

omit [DecidableEq ι] in
/-- An actor bears a new registry that has its entry and no new one of its own, nor one that
overlaps a subnet it is going to unregister again. -/
private theorem Fits.mono {registry' : Registry ι} {lease : Option NetAddress}
    (h : Fits registry lease b life)
    (hkeep : ∀ l, (.ofNet l, b) ∈ registry.networks → (.ofNet l, b) ∈ registry'.networks)
    (hnew : ∀ e ∈ registry'.networks, e ∈ registry.networks ∨
      e.2 ≠ b ∧ ∀ l ∈ life.unregistered, (ofNet l).cmp e.1 ≠ .eq) :
    Fits registry' lease b life := by
  cases life with
  | absent | gone => exact h
  | leased => exact ⟨h.1, fun e he => (hnew e he).elim (h.2 e) And.left⟩
  | created => exact ⟨h.1, hkeep _ h.2⟩
  | alive stage l main forkEntries =>
    cases stage with
    | running => exact ⟨⟨h.1.1, hkeep _ h.1.2⟩, h.2⟩
    | aborted => exact ⟨h.1, hkeep _ h.2⟩
    | stopped => exact fun e he => (hnew e he).elim (h e) fun hne => hne.2 l rfl

/-- A subnet is leased. -/
private theorem Inv.lease (h : s.Inv) (ha : s.actors a = .absent)
    (hl : s.subnetPool.lease mask = some (.ok l, pool)) :
    ({ s with
      subnetPool := pool
      leases := update s.leases a (some l) }.setActor a (.leased l)).Inv := by
  have hnone : s.leases a = none := by
    have hfit := h.life a
    rwa [ha] at hfit
  have hno : ∀ e ∈ s.registry.networks, e.2 ≠ a := by
    rintro e he rfl
    obtain ⟨l', hl', -⟩ := h.entry e he
    exact nomatch hnone.symm.trans hl'
  refine ⟨h.leased.lease hl, fun e he => ?_, fun b => ?_⟩
  · obtain ⟨l', hl', heq⟩ := h.entry e he
    exact ⟨l', by rw [← hl']; exact update_of_ne (hno e he) _ _, heq⟩
  · by_cases hb : b = a
    · subst hb
      simpa only [RtApi.setActor, update_self] using ⟨rfl, hno⟩
    · simpa only [RtApi.setActor, update_of_ne hb] using h.life b

/-- The subnet of a leased actor is registered. -/
private theorem Inv.register (h : s.Inv) (ha : s.actors a = .leased l)
    (hreg : s.registry.register l a = .ok registry)
    (hclean : ∀ b, ∀ l' ∈ (s.actors b).unregistered, (ofNet l').cmp (.ofNet l) ≠ .eq)
    (hlife : (.ofNet l, a) ∈ registry.networks → Fits registry (s.leases a) a life) :
    ({ s with registry }.setActor a life).Inv := by
  have hmem := Registry.register_spec hreg
  have hfit := h.life a
  rw [ha] at hfit
  refine h.setActor (fun e he => ?_) (fun b hb => ?_) (hlife ((hmem _).mpr (.inl rfl)))
  · refine ((hmem e).mp he).symm.imp_right ?_
    rintro rfl
    exact ⟨l, hfit.1, rfl⟩
  · refine (h.life b).mono (fun l' hl' => (hmem _).mpr (.inr hl')) fun e he => ?_
    refine ((hmem e).mp he).symm.imp_right ?_
    rintro rfl
    exact ⟨hb.symm, hclean b⟩

/-- The subnet of a registered actor is unregistered. -/
private theorem Inv.unregister (h : s.Inv) (ha : (.ofNet l, a) ∈ s.registry.networks)
    (hreg : s.registry.unregister l = (true, registry))
    (hlife : (∀ e ∈ registry.networks, (ofNet l).cmp e.1 ≠ .eq) →
      Fits registry (s.leases a) a life) :
    ({ s with registry }.setActor a life).Inv := by
  obtain ⟨r, heq, hmem⟩ := Registry.unregister_of_mem ha
  obtain ⟨-, rfl⟩ := Prod.mk.inj (heq.symm.trans hreg)
  refine h.setActor (fun e he => .inl ((hmem e).mp he).1) (fun b hb => ?_)
    (hlife fun e he => ((hmem e).mp he).2)
  -- the entry of another actor overlaps no entry of `a`
  have hkeep : ∀ l', (.ofNet l', b) ∈ s.registry.networks → (.ofNet l', b) ∈ r.networks :=
    fun l' hl' => (hmem _).mpr ⟨hl', fun hcmp => hb
      (Prod.mk.inj (Registry.eq_of_overlap ha hl' hcmp)).2.symm⟩
  exact (h.life b).mono hkeep fun e he => .inl ((hmem e).mp he).1

omit [DecidableEq ι] in
/-- The fields of an alive actor that its registration depends on. -/
private theorem Fits.alive {stage : Stage} {lease : Option NetAddress} {main : Address}
    {forkEntries forkEntries' : Finset Address}
    (h : Fits registry lease a (.alive stage l main forkEntries))
    (hmain : stage = .running → main ∈ forkEntries') :
    Fits registry lease a (.alive stage l main forkEntries') := by
  cases stage with
  | running => exact ⟨h.1, hmain rfl⟩
  | stopped | aborted => exact h

/-! ### One step -/

private theorem Inv.requestAddress (h : s.Inv) (hs : s.step (.requestAddress a mask) = some s') :
    s'.Inv := by
  simp only [RtApi.step] at hs
  split at hs
  case h_2 => contradiction
  case h_1 ha =>
    simp only [bind_eq_bind, bind_eq_some_iff] at hs
    obtain ⟨⟨lease, pool⟩, hlease, hs⟩ := hs
    cases lease with
    | error e =>
      cases hs
      exact Inv.setActor_self ⟨h.leased.lease_error hlease, h.entry, h.life⟩ trivial
    | ok l =>
      cases hs
      exact h.lease ha hlease

/-- An actor that is created keeps the invariant. -/
private theorem Inv.create (h : s.Inv) (hclean : CleanRegister s (.create a))
    (hs : s.step (.create a) = some s') : s'.Inv := by
  simp only [RtApi.step] at hs
  split at hs
  case h_2 => contradiction
  case h_1 l ha =>
    have hfit := h.life a
    rw [ha] at hfit
    split at hs
    case h_1 =>
      -- the node comes back and is dropped at once
      have hgone : (s.setActor a .gone).Inv := h.setActor_self trivial
      refine hgone.dropLease hfit.1 hfit.2 (fun l' => ?_) hs
      simp only [RtApi.setActor, update_self, ne_eq, reduceCtorEq, not_false_eq_true]
    case h_2 registry hreg =>
      simp only [bind_eq_bind, bind_eq_some_iff] at hs
      obtain ⟨fork, -, hs⟩ := hs
      have hclean' := hclean a rfl l hfit.1
      cases fork with
      | error =>
        cases hs
        exact h.register ha hreg hclean' fun _ => trivial
      | ok f =>
        cases hs
        exact h.register ha hreg hclean' fun hmem => ⟨hfit.1, hmem⟩

/-- A context that is dropped keeps the invariant. -/
private theorem Inv.dropContext {f : Address} (h : s.Inv)
    (hs : s.step (.dropContext a f) = some s') : s'.Inv := by
  simp only [RtApi.step] at hs
  split at hs
  case h_2 => contradiction
  case h_1 stage l main forkEntries ha =>
    have hfit := h.life a
    rw [ha] at hfit
    split at hs
    case isTrue => contradiction
    case isFalse hdrop =>
      obtain ⟨-, hmain⟩ := not_or.mp hdrop
      -- the context of the main fork is not the one dropped as long as `run` is in its loop
      have hkeep : stage = .running → main ∈ forkEntries.erase f := by
        rintro rfl
        exact Finset.mem_erase_of_ne_of_mem (fun heq => hmain ⟨rfl, heq.symm⟩) hfit.2
      split at hs
      case isFalse =>
        cases hs
        exact h.setActor_self (hfit.alive hkeep)
      case isTrue hlast =>
        cases hs
        cases stage with
        | running => exact absurd (hkeep rfl) (hlast ▸ Finset.notMem_empty main)
        | stopped =>
          rw [Registry.unregister_eq_self hfit]
          exact h.setActor_self trivial
        | aborted =>
          obtain ⟨r, hreg, -⟩ := Registry.unregister_of_mem hfit.2
          rw [hreg]
          exact h.unregister hfit.2 hreg fun _ => trivial

/-- **One step** that meets the condition. -/
theorem Inv.step {act : RtAction ι} (h : s.Inv) (hclean : CleanRegister s act)
    (hs : s.step act = some s') : s'.Inv := by
  cases act with
  | requestAddress a mask => exact h.requestAddress hs
  | create a => exact h.create hclean hs
  | dropContext a f => exact h.dropContext hs
  | run a =>
    simp only [RtApi.step] at hs
    split at hs
    case h_2 => contradiction
    case h_1 l f ha =>
      cases hs
      have hfit := h.life a
      rw [ha] at hfit
      exact h.setActor_self ⟨hfit, Finset.mem_singleton_self f⟩
  | fork a f =>
    simp only [RtApi.step] at hs
    split at hs
    case h_2 => contradiction
    case h_1 stage l main forkEntries ha =>
      split at hs
      case isTrue => contradiction
      case isFalse =>
        cases hs
        have hfit := h.life a
        rw [ha] at hfit
        refine h.setActor_self (hfit.alive ?_)
        rintro rfl
        exact Finset.mem_insert_of_mem hfit.2
  | stop a =>
    simp only [RtApi.step] at hs
    split at hs
    case h_2 => contradiction
    case h_1 l main forkEntries ha =>
      split at hs
      case h_1 => contradiction
      case h_2 registry hreg =>
        cases hs
        have hfit := h.life a
        rw [ha] at hfit
        exact h.unregister hfit.1.2 hreg id
  | abort a =>
    simp only [RtApi.step] at hs
    split at hs
    case h_1 =>
      cases hs
      exact h.setActor_self trivial
    case h_2 l main forkEntries ha =>
      cases hs
      have hfit := h.life a
      rw [ha] at hfit
      exact h.setActor_self hfit.1
    case h_3 => contradiction
  | dropNode a =>
    simp only [RtApi.step] at hs
    split at hs
    case h_1 | h_2 => contradiction
    case h_3 l hl hne =>
      split at hs
      case isTrue hno => exact h.dropLease hl hno hne hs
      case isFalse => contradiction

omit [DecidableEq ι] in
/-- An actor that has not unregistered its subnet has its lease and its entry. -/
private theorem Inv.mem_of_registered (h : s.Inv) (ha : l ∈ (s.actors a).registered) :
    s.leases a = some l ∧ (.ofNet l, a) ∈ s.registry.networks := by
  have hfit := h.life a
  cases hlive : s.actors a with
  | absent | leased | gone => exact nomatch hlive ▸ ha
  | created l' main =>
    rw [hlive] at hfit ha
    exact some.inj ha ▸ hfit
  | alive stage l' main forkEntries =>
    rw [hlive] at hfit ha
    cases stage with
    | running => exact some.inj ha ▸ hfit.1
    | stopped | aborted => contradiction

/-- **An actor stays registered until it stops.** In every run in which no subnet is registered
while an actor that has unregistered an overlapping one still has a context: from
`Container::create` until `Container::run` unregisters the subnet, each of its addresses leads to
the node of the actor, and the subnet can be unregistered, so that the assertion of `run` holds. -/
theorem registered_of_clean {n : NetAddress} (hinit : init ι n = some s₀)
    (h : Reaches RtApi.step CleanRegister s₀ s) (ha : l ∈ (s.actors a).registered) :
    (∀ x : Address, l.Contains x.intoU64 → s.registry.lookup x = some a) ∧
      (s.registry.unregister l).1 = true ∧
      ∀ main forkEntries, s.actors a = .alive .running l main forkEntries →
        ∃ s', s.step (.stop a) = some s' := by
  have hinv : s.Inv := h.invariant (inv_init hinit) fun hinv hok hs => hinv.step hok hs
  obtain ⟨hl, hmem⟩ := hinv.mem_of_registered ha
  obtain ⟨registry, hreg, -⟩ := Registry.unregister_of_mem hmem
  refine ⟨fun x hx => ?_, by rw [hreg], fun main forkEntries hlive => ?_⟩
  · exact Registry.lookup_of_mem hmem
      ((mem_ofNet (hinv.leased.aligned a l hl)).mpr hx)
  · refine ⟨{ s with registry }.setActor a (.alive .stopped l main forkEntries), ?_⟩
    simp only [RtApi.step, hlive, hreg]

/-- The only subnet. -/
def oneNet : NetAddress := ⟨⟨0#64⟩, .ofLevel 4⟩

/-- The second actor registers the subnet of the first one after the first one is gone. -/
theorem registered_of_clean_successor :
    ∃ s₀ s, init Bool oneNet = some s₀ ∧
      Reaches RtApi.step CleanRegister s₀ s ∧
      s.actors true = .alive .running oneNet ⟨0#64⟩ {⟨0#64⟩} ∧
      s.registry.lookup ⟨7#64⟩ = some true := by
  have hinit := (some_get (x := init Bool oneNet) (by decide)).symm
  have hreach : Reaches RtApi.step CleanRegister ((init Bool oneNet).get (by decide)) _ :=
    reaches_get [.requestAddress false oneNet.mask, .create false, .run false, .stop false,
      .dropNode false, .requestAddress true oneNet.mask, .dropContext false ⟨0#64⟩, .create true,
      .run true] (by decide)
  exact ⟨_, _, hinit, hreach, by decide,
    (registered_of_clean (a := true) (l := oneNet) hinit hreach (by decide)).1 ⟨7#64⟩ (by decide)⟩

/-- **Unregistered by the predecessor.** The first actor has left its loop and unregistered its
subnet, and the lease is back in the pool. The second actor gets the same subnet and registers it.
Then the main context of the first actor is dropped, which unregisters the subnet again: the
second actor runs, no message reaches it, and the assertion at its end fails. -/
theorem unregistered_by_predecessor :
    ∃ s₀ s, init Bool oneNet = some s₀ ∧
      Reaches RtApi.step (fun _ _ => True) s₀ s ∧
      s.actors true = .alive .running oneNet ⟨0#64⟩ {⟨0#64⟩} ∧
      (∀ x, s.registry.lookup x = none) ∧ s.step (.stop true) = none := by
  refine ⟨_, _, (some_get (by decide)).symm, reaches_get
    [.requestAddress false oneNet.mask, .create false, .run false, .stop false, .dropNode false,
      .requestAddress true oneNet.mask, .create true, .run true, .dropContext false ⟨0#64⟩]
    (by decide), by decide, fun x => ?_, ?_⟩
  · rfl
  · rfl

end RtApi

end Mm1
