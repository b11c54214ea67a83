import Mm1.Lib.SearchTree
import Mm1.Runtime.Registry

/-!
# The registry as a search tree

`Registry` keeps its nodes in a tree that finds and places a key by comparing it with others, and
the comparison of address ranges calls overlapping ranges equal. So everything rests on the keys of
the tree: they must not overlap. Here the registry is such a tree, of any shape, that may be
rebalanced at any time.

`unregister` takes the range that it has found and compares it with the range that it sought. The
comparison is the one that found it, so that the check never fails: a subnet that is not registered
takes out one that it overlaps.

* `networks_exact_of_runs`: the registered ranges are disjoint, and the three calls do what they
  should, after every sequence of calls;
* `unregister_exact_iff`: when a call of `unregister` removes the subnet that it names, and only
  that one;
* `Same`: the registry as a list, which does not say which one of several overlapping subnets is
  found, agrees with the tree.
-/

namespace Mm1

open Transition OrderedMap SearchTree Option AddressRange

namespace AddressRange

variable {r r' : AddressRange}

/-- The ranges have an address in common. -/
def Overlaps (r r' : AddressRange) : Prop := ∃ a, r.Mem a ∧ r'.Mem a

private theorem cmp_eq_iff_overlaps : cmp r r' = .eq ↔ r.Overlaps r' := by
  constructor
  · intro h
    obtain ⟨hlo, hhi⟩ := cmp_eq_iff.mp h
    have hr := r.lo_le_hi
    have hr' := r'.lo_le_hi
    -- the larger one of the two low ends lies in both
    rcases Nat.le_total r.lo.intoU64.toNat r'.lo.intoU64.toNat with hle | hle
    · exact ⟨r'.lo, ⟨hle, hhi⟩, le_rfl, hr'⟩
    · exact ⟨r.lo, ⟨le_rfl, hr⟩, hle, hlo⟩
  · rintro ⟨a, ha, ha'⟩
    exact ha.overlap ha'

private theorem overlaps_comm : r.Overlaps r' ↔ r'.Overlaps r := by
  rw [← cmp_eq_iff_overlaps, cmp_comm, cmp_eq_iff_overlaps]

end AddressRange

/-- The tree of `Registry`. -/
abbrev Networks (ν : Type*) := Tree AddressRange ν

namespace Networks

variable {ν : Type*} {t t' : Networks ν} {subnet : NetAddress} {node : ν} {a : Address}
  {e e' : AddressRange × ν}

/-- `Registry::register`. An error gives the node back. -/
def register (t : Networks ν) (subnet : NetAddress) (node : ν) : Except ν (Networks ν) :=
  let addressRange := ofNet subnet
  match t.insert? AddressRange.cmp addressRange node with
  | none => .error node
  | some t => .ok t

/-- `Registry::unregister`. -/
def unregister (t : Networks ν) (subnet : NetAddress) : Bool × Networks ν :=
  let soughtRange := ofNet subnet
  match t.find? AddressRange.cmp soughtRange with
  | none => (false, t)
  | some (foundRange, _) =>
    if foundRange.cmp soughtRange ≠ .eq then (false, t)
    else
      match t.erase? AddressRange.cmp soughtRange with
      | none => (false, t)
      | some (_, t) => (true, t)

/-- `Registry::lookup`. -/
def lookup (t : Networks ν) (address : Address) : Option ν :=
  (t.find? AddressRange.cmp (.ofAddress address)).map Prod.snd

/-! ### The calls -/

private theorem register_cases (t : Networks ν) (subnet : NetAddress) (node : ν) :
    (∃ t', t.insert? AddressRange.cmp (.ofNet subnet) node = some t' ∧
      t.register subnet node = .ok t') ∨
    (t.insert? AddressRange.cmp (.ofNet subnet) node = none ∧
      t.register subnet node = .error node) := by
  rw [register]
  split
  case h_1 hnone => exact .inr ⟨hnone, rfl⟩
  case h_2 t' hsome => exact .inl ⟨t', hsome, rfl⟩

/-- All that `unregister` can do: the check never fails. -/
private theorem unregister_cases (t : Networks ν) (subnet : NetAddress) :
    (t.find? AddressRange.cmp (.ofNet subnet) = none ∧ t.unregister subnet = (false, t)) ∨
    ∃ e t', t.find? AddressRange.cmp (.ofNet subnet) = some e ∧
      t.erase? AddressRange.cmp (.ofNet subnet) = some (e, t') ∧
      t.unregister subnet = (true, t') := by
  rw [unregister]
  split
  case h_1 hnone => exact .inl ⟨hnone, rfl⟩
  case h_2 r v hfind =>
    have hcheck : r.cmp (.ofNet subnet) = .eq := cmp_comm.mp (Tree.find?_spec hfind).2
    obtain ⟨⟨e, t'⟩, herase, he⟩ := map_eq_some_iff.mp (Tree.erase?_find?.trans hfind)
    obtain rfl : e = (r, v) := he
    refine .inr ⟨(r, v), t', hfind, herase, ?_⟩
    rw [if_neg (not_not_intro hcheck), herase]

section Ordered

variable (ht : Sorted AddressRange.cmp t.toList)

include ht

/-- Entries of a tree in order that overlap are the same. -/
private theorem eq_of_overlaps (he : e ∈ t.toList) (he' : e' ∈ t.toList) (h : e.1.Overlaps e'.1) :
    e = e' := by
  by_contra hne
  have : Std.Symm fun e e' : AddressRange × ν => e.1.cmp e'.1 ≠ .eq :=
    ⟨fun _ _ hne heq => hne (cmp_comm.mp heq)⟩
  have hapart : t.toList.Pairwise fun e e' => e.1.cmp e'.1 ≠ .eq :=
    ht.imp fun hlt heq => by
      rw [hlt] at heq
      contradiction
  exact hapart.forall he he' hne (cmp_eq_iff_overlaps.mpr h)

private theorem insert?_eq_none_iff_overlaps (r : AddressRange) (node : ν) :
    t.insert? AddressRange.cmp r node = none ↔ ∃ e ∈ t.toList, e.1.Overlaps r := by
  rw [Tree.insert?_eq_none_iff, Tree.find?_isSome_iff strictCmp_cmp ht]
  simp only [cmp_eq_iff_overlaps, overlaps_comm (r := r)]

/-- **`lookup` finds the range that contains the address.** -/
theorem lookup_eq_some_iff : t.lookup a = some node ↔ ∃ r, (r, node) ∈ t.toList ∧ r.Mem a := by
  constructor
  · intro h
    obtain ⟨e, he, rfl⟩ := map_eq_some_iff.mp h
    obtain ⟨hmem, hcmp⟩ := Tree.find?_spec he
    exact ⟨e.1, hmem, cmp_ofAddress.mp hcmp⟩
  · rintro ⟨r, hmem, ha⟩
    have hsome := (Tree.find?_isSome_iff strictCmp_cmp ht).mpr
      ⟨(r, node), hmem, cmp_ofAddress.mpr ha⟩
    obtain ⟨e, he⟩ := isSome_iff_exists.mp hsome
    obtain ⟨hmem', hcmp⟩ := Tree.find?_spec he
    obtain rfl : e = (r, node) := eq_of_overlaps ht hmem' hmem ⟨a, cmp_ofAddress.mp hcmp, ha⟩
    rw [lookup, he, map_some]

private theorem lookup_eq_none_iff : t.lookup a = none ↔ ∀ e ∈ t.toList, ¬ e.1.Mem a := by
  rw [lookup, map_eq_none_iff, Tree.find?_eq_none_iff strictCmp_cmp ht]
  simp only [Ne, cmp_ofAddress]

end Ordered

/-! ### Sequences of calls -/

/-- What changes the tree. -/
inductive Call (ν : Type*) where
  | register (subnet : NetAddress) (node : ν)
  | unregister (subnet : NetAddress)
  /-- the tree changes its shape -/
  | rebalance (tree : Networks ν)

/-- A call. A registration that fails leaves the tree as it is. -/
def step (t : Networks ν) : Call ν → Option (Networks ν)
  | .register subnet node =>
    match t.register subnet node with
    | .error _ => some t
    | .ok t => some t
  | .unregister subnet => some (t.unregister subnet).2
  | .rebalance tree => some tree

/-- A new shape has the same entries in the same order. -/
def Rebalances (t : Networks ν) : Call ν → Prop
  | .rebalance tree => tree.toList = t.toList
  | _ => True

instance [DecidableEq ν] : (c : Call ν) → Decidable (Rebalances t c)
  | .rebalance tree => inferInstanceAs (Decidable (tree.toList = t.toList))
  | .register _ _ => instDecidableTrue
  | .unregister _ => instDecidableTrue

/-- A call keeps the ranges in order. -/
private theorem sorted_step {c : Call ν} (ht : Sorted AddressRange.cmp t.toList)
    (hc : Rebalances t c) (h : t.step c = some t') : Sorted AddressRange.cmp t'.toList := by
  cases c with
  | register subnet node =>
    rw [step] at h
    rcases t.register_cases subnet node with ⟨t₁, hinsert, hok⟩ | ⟨-, herror⟩
    · rw [hok] at h
      obtain rfl : t₁ = t' := some.inj h
      exact Tree.sorted_insert? strictCmp_cmp ht hinsert
    · rw [herror] at h
      obtain rfl : t = t' := some.inj h
      exact ht
  | unregister subnet =>
    obtain rfl : (t.unregister subnet).2 = t' := some.inj h
    rcases t.unregister_cases subnet with ⟨-, heq⟩ | ⟨e, t₁, -, herase, heq⟩
    · rw [heq]
      exact ht
    · rw [heq]
      exact Tree.sorted_erase? ht herase
  | rebalance tree =>
    obtain rfl : tree = t' := some.inj h
    rw [show tree.toList = t.toList from hc]
    exact ht

/-- **The tree is in order**, so that the registered ranges do not overlap. -/
theorem sorted_of_runs (h : Reaches step Rebalances (.leaf : Networks ν) t) :
    Sorted AddressRange.cmp t.toList :=
  h.invariant (P := fun t : Networks ν => Sorted AddressRange.cmp t.toList) List.Pairwise.nil
    sorted_step

/-- **The registry after any sequence of calls.** The registered ranges are disjoint, and the
comparison orders them; a registration fails if and only if the range overlaps a registered one,
and then nothing changes; `lookup` returns the node of the only range that contains the address. -/
theorem networks_exact_of_runs (h : Reaches step Rebalances (.leaf : Networks ν) t) :
    (t.toList.Pairwise fun e e' => ¬ e.1.Overlaps e'.1) ∧
    OrderOn AddressRange.cmp {r | r ∈ t.toList.map Prod.fst} ∧
    (∀ subnet node, (∃ e ∈ t.toList, e.1.Overlaps (.ofNet subnet)) →
      t.register subnet node = .error node ∧ t.step (.register subnet node) = some t) ∧
    (∀ subnet node, (¬ ∃ e ∈ t.toList, e.1.Overlaps (.ofNet subnet)) →
      ∃ t', t.register subnet node = .ok t' ∧
        ∀ e, e ∈ t'.toList ↔ e = (.ofNet subnet, node) ∨ e ∈ t.toList) ∧
    (∀ a node, t.lookup a = some node ↔
      ∃ r, (r, node) ∈ t.toList ∧ r.Mem a ∧ ∀ e ∈ t.toList, e.1.Mem a → e = (r, node)) ∧
    ∀ a, t.lookup a = none ↔ ∀ e ∈ t.toList, ¬ e.1.Mem a := by
  have ht := sorted_of_runs h
  refine ⟨?_, ?_, fun subnet node hover => ?_, fun subnet node hfree => ?_, fun a node => ?_,
    fun a => lookup_eq_none_iff ht⟩
  · refine ht.imp fun hlt hover => ?_
    rw [cmp_eq_iff_overlaps.mpr hover] at hlt
    contradiction
  · refine orderOn_cmp fun r hr r' hr' heq => ?_
    obtain ⟨e, he, rfl⟩ := List.mem_map.mp hr
    obtain ⟨e', he', rfl⟩ := List.mem_map.mp hr'
    rw [eq_of_overlaps ht he he' (cmp_eq_iff_overlaps.mp heq)]
  · have hnone := (insert?_eq_none_iff_overlaps ht _ node).mpr hover
    have herror : t.register subnet node = .error node := by
      rcases t.register_cases subnet node with ⟨t', hsome, -⟩ | ⟨-, herror⟩
      · rw [hnone] at hsome
        contradiction
      · exact herror
    exact ⟨herror, by rw [step, herror]⟩
  · rcases t.register_cases subnet node with ⟨t', hsome, hok⟩ | ⟨hnone, -⟩
    · exact ⟨t', hok, fun e => Tree.mem_insert? hsome⟩
    · exact absurd ((insert?_eq_none_iff_overlaps ht _ node).mp hnone) hfree
  · rw [lookup_eq_some_iff ht]
    constructor
    · rintro ⟨r, hmem, ha⟩
      exact ⟨r, hmem, ha, fun e he hea => eq_of_overlaps ht he hmem ⟨a, hea, ha⟩⟩
    · rintro ⟨r, hmem, ha, -⟩
      exact ⟨r, hmem, ha⟩

/-- Three subnets, one of them inside another one. -/
def netA : NetAddress := ⟨⟨0x100#64⟩, ⟨57, by decide⟩⟩

def netAInner : NetAddress := ⟨⟨0x120#64⟩, ⟨61, by decide⟩⟩

def netB : NetAddress := ⟨⟨0x200#64⟩, ⟨57, by decide⟩⟩

/-- Two subnets, and one inside of the first that is refused. -/
theorem networks_exact_two_subnets :
    ∃ t : Networks ℕ, Reaches step Rebalances .leaf t ∧ t.register netAInner 3 = .error 3 ∧
      t.lookup ⟨0x17f#64⟩ = some 1 ∧ t.lookup ⟨0x200#64⟩ = some 2 ∧
      t.lookup ⟨0x300#64⟩ = none := by
  -- the tree is turned over in between
  obtain ⟨t, hreach, hover⟩ : ∃ t : Networks ℕ, Reaches step Rebalances .leaf t ∧
      t.toList = [(.ofNet netA, 1), (.ofNet netB, 2)] :=
    ⟨_, reaches_get [.register netA 1, .register netB 2, .register netAInner 3,
      .rebalance (.node (.node .leaf (.ofNet netA) 1 .leaf) (.ofNet netB) 2 .leaf)] (by decide),
      rfl⟩
  obtain ⟨-, -, hfail, -, hlookup, hnone⟩ := networks_exact_of_runs hreach
  refine ⟨t, hreach, (hfail netAInner 3 ⟨(.ofNet netA, 1), by simp [hover], ?_⟩).1, ?_, ?_, ?_⟩
  · exact cmp_eq_iff_overlaps.mp (by decide)
  · exact (hlookup _ _).mpr ⟨.ofNet netA, by simp [hover], by decide, by rw [hover]; decide⟩
  · exact (hlookup _ _).mpr ⟨.ofNet netB, by simp [hover], by decide, by rw [hover]; decide⟩
  · exact (hnone _).mpr (by rw [hover]; decide)

/-! ### Unregistering a subnet that is not registered -/

/-- `unregister` removes the node that is registered for exactly this range, and nothing when there
is none. -/
def UnregistersOnly (t : Networks ν) (subnet : NetAddress) : Prop :=
  ((t.unregister subnet).1 = true → ∃ node, (.ofNet subnet, node) ∈ t.toList ∧
    ∀ e, e ∈ (t.unregister subnet).2.toList ↔ e ∈ t.toList ∧ e ≠ (.ofNet subnet, node)) ∧
  ((∀ node, (.ofNet subnet, node) ∉ t.toList) → t.unregister subnet = (false, t))

/-- **When `unregister` removes what it names**: the registered ranges that the range of the subnet
overlaps are that range. -/
theorem unregister_exact_iff (h : Reaches step Rebalances (.leaf : Networks ν) t)
    (subnet : NetAddress) : t.UnregistersOnly subnet ↔
      ∀ e ∈ t.toList, e.1.Overlaps (.ofNet subnet) → e.1 = .ofNet subnet := by
  have ht := sorted_of_runs h
  constructor
  · rintro ⟨-, hfalse⟩ e he hover
    by_contra hne
    -- if the range itself were registered, it would be this entry
    have hnot : ∀ node, (.ofNet subnet, node) ∉ t.toList := fun node hmem =>
      hne (congrArg Prod.fst (eq_of_overlaps ht he hmem hover))
    have hsome := (Tree.find?_isSome_iff strictCmp_cmp ht).mpr
      ⟨e, he, cmp_comm.mp (cmp_eq_iff_overlaps.mpr hover)⟩
    rcases t.unregister_cases subnet with ⟨hnone, -⟩ | ⟨_, _, -, -, htrue⟩
    · rw [hnone] at hsome
      contradiction
    · rw [hfalse hnot, Prod.mk.injEq] at htrue
      exact Bool.noConfusion htrue.1
  · intro hexact
    rcases t.unregister_cases subnet with ⟨-, heq⟩ | ⟨e, t', hfind, herase, heq⟩
    · refine ⟨fun htrue => ?_, fun _ => heq⟩
      rw [heq] at htrue
      contradiction
    · obtain ⟨hmem, hcmp⟩ := Tree.find?_spec hfind
      have hkey : e.1 = .ofNet subnet := hexact e hmem
        (cmp_eq_iff_overlaps.mp (cmp_comm.mp hcmp))
      have hmem' : (.ofNet subnet, e.2) ∈ t.toList := hkey ▸ hmem
      refine ⟨fun _ => ⟨e.2, hmem', fun e' => ?_⟩, fun hnot => absurd hmem' (hnot e.2)⟩
      rw [heq, Tree.mem_erase? strictCmp_cmp ht herase, ← hkey]

theorem unregister_exact_netA :
    ∃ t : Networks ℕ, Reaches step Rebalances .leaf t ∧ t.UnregistersOnly netA ∧
      t.UnregistersOnly ⟨⟨0x300#64⟩, ⟨56, by decide⟩⟩ := by
  have hreach : Reaches step Rebalances (.leaf : Networks ℕ) _ :=
    reaches_get [.register netA 1, .register netB 2] (by decide)
  refine ⟨_, hreach, (unregister_exact_iff hreach _).mpr ?_, (unregister_exact_iff hreach _).mpr ?_⟩
  all_goals
    simp only [← cmp_eq_iff_overlaps]
    decide

/-- A subnet inside a registered one takes the registered one out. -/
theorem unregister_inner_removes_outer :
    ∃ t : Networks ℕ, Reaches step Rebalances .leaf t ∧
      (∀ node, (.ofNet netAInner, node) ∉ t.toList) ∧ t.lookup ⟨0x17f#64⟩ = some 1 ∧
      (t.unregister netAInner).1 = true ∧ (t.unregister netAInner).2.lookup ⟨0x17f#64⟩ = none := by
  have hnot : ∀ e ∈ [(ofNet netA, 1), (ofNet netB, 2)], e.1 ≠ ofNet netAInner := by decide
  exact ⟨_, reaches_get [.register netA 1, .register netB 2] (by decide),
    fun node hmem => hnot _ hmem rfl, by decide, by decide, by decide⟩

/-! ### The registry as a list -/

section Same

variable {s : Registry ν}

/-- The tree has the entries of the list. -/
def Same (t : Networks ν) (s : Registry ν) : Prop := ∀ e, e ∈ t.toList ↔ e ∈ s.networks

/-- Both find the same node. -/
theorem Same.lookup (h : t.Same s) (ht : Sorted AddressRange.cmp t.toList) (a : Address) :
    t.lookup a = s.lookup a := by
  cases hl : t.lookup a with
  | some node =>
    obtain ⟨r, hmem, ha⟩ := (lookup_eq_some_iff ht).mp hl
    exact (Registry.lookup_of_mem ((h _).mp hmem) ha).symm
  | none =>
    have hnone := (lookup_eq_none_iff ht).mp hl
    cases hs : s.lookup a with
    | none => rfl
    | some node =>
      obtain ⟨e, he, rfl⟩ := map_eq_some_iff.mp hs
      obtain ⟨hmem, hcmp⟩ := Registry.peekEntry_spec he
      exact absurd (cmp_ofAddress.mp hcmp) (hnone e ((h e).mpr hmem))

/-- Both register a subnet, or neither does. -/
theorem Same.register (h : t.Same s) (ht : Sorted AddressRange.cmp t.toList)
    (subnet : NetAddress) (node : ν) :
    (t.register subnet node = .error node ∧ s.register subnet node = .error node) ∨
      ∃ t' s', t.register subnet node = .ok t' ∧ s.register subnet node = .ok s' ∧ t'.Same s' := by
  have hiff := insert?_eq_none_iff_overlaps ht (.ofNet subnet) node
  simp only [← cmp_eq_iff_overlaps, h _] at hiff
  rcases t.register_cases subnet node with ⟨t', hsome, hok⟩ | ⟨hnone, herror⟩
  · have hfree : ∀ e ∈ s.networks, (ofNet subnet).cmp e.1 ≠ .eq := by
      intro e he heq
      rw [hiff.mpr ⟨e, he, cmp_comm.mp heq⟩] at hsome
      contradiction
    refine .inr ⟨t', _, hok, dif_pos hfree, fun e => ?_⟩
    rw [Tree.mem_insert? hsome, h e]
    exact List.mem_cons.symm
  · obtain ⟨e, he, heq⟩ := hiff.mp hnone
    exact .inl ⟨herror, dif_neg fun hfree => hfree e he (cmp_comm.mp heq)⟩

/-- The two agree on which subnet to remove when there is at most one. -/
theorem Same.unregister (h : t.Same s) (ht : Sorted AddressRange.cmp t.toList)
    {subnet : NetAddress}
    (hexact : ∀ e ∈ t.toList, e.1.Overlaps (.ofNet subnet) → e.1 = .ofNet subnet) :
    (t.unregister subnet).1 = (s.unregister subnet).1 ∧
      (t.unregister subnet).2.Same (s.unregister subnet).2 := by
  rcases t.unregister_cases subnet with ⟨hnone, heq⟩ | ⟨e, t', hfind, herase, heq⟩
  · have hfree := (Tree.find?_eq_none_iff strictCmp_cmp ht).mp hnone
    rw [heq, Registry.unregister_eq_self fun e he => hfree e ((h e).mpr he)]
    exact ⟨rfl, h⟩
  · obtain ⟨hmem, hcmp⟩ := Tree.find?_spec hfind
    have hkey : e.1 = .ofNet subnet := hexact e hmem
      (cmp_eq_iff_overlaps.mp (cmp_comm.mp hcmp))
    have hmem' : (.ofNet subnet, e.2) ∈ s.networks := hkey ▸ (h e).mp hmem
    obtain ⟨s', hs', hiff⟩ := Registry.unregister_of_mem hmem'
    rw [heq, hs']
    refine ⟨rfl, fun e' => ?_⟩
    rw [Tree.mem_erase? strictCmp_cmp ht herase, hiff, h e']
    refine and_congr_right fun he' => not_congr ⟨fun heq => ?_, fun hcmp' => ?_⟩
    · rw [heq]
      exact hcmp
    · refine eq_of_overlaps ht ((h e').mpr he') hmem ?_
      rw [hkey]
      exact cmp_eq_iff_overlaps.mp (cmp_comm.mp hcmp')

end Same

end Networks

end Mm1
