import Mm1.Lib.Transition
import Mm1.Multinode.RouteRun

/-!
# Overlapping destinations

`AddressRange` asks every collection keyed by it to keep its keys disjoint. `set_route` answers
`Conflict` when the entry it finds has another subnet than the one it is called with, but it looks
for an entry with the same message and the same metric, or the same message and the same gateway.
A destination that overlaps a stored one is accepted when no such entry is there.

A destination may overlap several stored subnets. An entry for one of them may then stand aside of
the path that the search takes, which depends on the tree of the map. The search is sure to end at
an entry when each subnet that is overlapped has one.

* `Collides`: all stored subnets that the destination overlaps have a route that one of the two
  checks looks for;
* `apply_cases`: under that condition a call is refused or the destination fits;
* `nets_disjoint_of_reaches`: the stored subnets then stay disjoint over every run, whatever the
  trees are.
-/

namespace Mm1

open OrderedMap Transition Option AddressRange

namespace RouteRegistry

variable (env : Env) {r r' : RouteRegistry} {c : SetRoute} {N : Set NetAddress} {g : Option Address}

/-- The call of a `SetRoute`. -/
def apply (env : Env) (r : RouteRegistry) (c : SetRoute) :
    Except Panic (RouteRegistry × Except SetRouteError (Option RouteMetric)) :=
  r.setRoute env c.message c.destination c.via c.metric

/-- The destinations of the routes. -/
def nets (r : RouteRegistry) : Set NetAddress := {n | ∃ p ∈ r.routeEntries, p.2.dstNet = n}

theorem netsIn_iff : r.NetsIn N ↔ r.nets ⊆ N := by
  constructor
  · rintro h n ⟨p, hp, rfl⟩
    exact h p hp
  · exact fun h p hp => h ⟨p, hp, rfl⟩

theorem mem_nets_iff (hinv : Inv r) (hA : Apart N) (hN : r.NetsIn N) {n : NetAddress} :
    n ∈ r.nets ↔ ∃ g m x, r.table (g, n, m) = some x := by
  constructor
  · rintro ⟨⟨key, m, n, g, x⟩, hp, rfl⟩
    exact ⟨g, m, x, (hinv.table_eq_some_iff hA hN).mpr ⟨key, hp⟩⟩
  · rintro ⟨g, m, x, hx⟩
    obtain ⟨key, hp⟩ := (hinv.table_eq_some_iff hA hN).mp hx
    exact ⟨_, hp, rfl⟩

/-- The containers agree and the destinations do not overlap. -/
structure Sound (r : RouteRegistry) : Prop where
  inv : Inv r
  apart : Apart r.nets

/-- All stored subnets that the destination overlaps without being equal to it have a route with the
same message and the same metric, or all of them have one with the same message and the same
gateway. -/
def Collides (r : RouteRegistry) (c : SetRoute) : Prop :=
  (∀ p ∈ r.routeEntries, c.destination.Overlaps p.2.dstNet → p.2.dstNet ≠ c.destination →
    ∃ p' ∈ r.routeEntries, p'.2.dstNet = p.2.dstNet ∧ p'.2.message = c.message ∧
      c.metric = some p'.2.metric) ∨
  ∀ p ∈ r.routeEntries, c.destination.Overlaps p.2.dstNet → p.2.dstNet ≠ c.destination →
    ∃ p' ∈ r.routeEntries, p'.2.dstNet = p.2.dstNet ∧ p'.2.message = c.message ∧
      p'.2.gw = c.via

instance (r : RouteRegistry) (c : SetRoute) : Decidable (Collides r c) :=
  inferInstanceAs (Decidable (_ ∨ _))

/-- The destination overlaps a stored subnet that it is not equal to. -/
def Clashes (r : RouteRegistry) (c : SetRoute) : Prop :=
  ∃ p ∈ r.routeEntries, c.destination.Overlaps p.2.dstNet ∧ p.2.dstNet ≠ c.destination

instance (r : RouteRegistry) (c : SetRoute) : Decidable (Clashes r c) :=
  inferInstanceAs (Decidable (∃ _ ∈ _, _))

/-! ### The check -/

private theorem apply_of_conflict (h : r.dstConflict env c.message c.destination c.metric ≠ none ∨
    r.gwConflict env c.message c.destination c.via ≠ none) :
    ∃ net, r.apply env c = .ok (r, .error (.conflict net)) := by
  rw [apply, setRoute]
  cases hd : r.dstConflict env c.message c.destination c.metric with
  | some net => exact ⟨net, rfl⟩
  | none =>
    cases hg : r.gwConflict env c.message c.destination c.via with
    | some net => exact ⟨net, rfl⟩
    | none => simp [hd, hg] at h

section Found

variable {m : LocalTypeKey} {n : NetAddress} (h : Sound r) (hnew : n ∉ r.nets)
  (hover : ∃ n' ∈ r.nets, n.Overlaps n')

include h hnew hover

/-- Every overlapped subnet has a route with the message and the metric: one of them is found. -/
private theorem dstConflict_of_all {x : RouteMetric} (hall : ∀ n' ∈ r.nets, n.Overlaps n' →
    ∃ p ∈ r.routeEntries, p.2.dstKey = (.ofNet n', m, x)) :
    r.dstConflict env m n (some x) ≠ none := by
  have hinner : OrderOn (lexCmp KeyData.cmp compare) (Set.univ : Set (_ × RouteMetric)) := by
    rw [← Set.univ_prod_univ]
    exact KeyData.orderOn_cmp.lex orderOn_compare
  have hN : r.NetsIn r.nets := netsIn_iff.mpr subset_rfl
  have hkeys : ∀ q : DstKey, q ∈ {q | ∃ s, (q, s) ∈ r.byDst} →
      q.1 ∈ ofNet '' r.nets := fun q ⟨s, hs⟩ => ((h.inv.multiOk hN).keysIn _ hs).1
  have hcaught : Caught dstCmp {q | ∃ s, (q, s) ∈ r.byDst} (.ofNet n, m, x) := by
    refine Caught.lex h.apart.orderOn strictCmp_cmp hkeys ?_ ?_
    · obtain ⟨n', hn', hover⟩ := hover
      exact ⟨_, ⟨n', hn', rfl⟩, hover⟩
    · rintro _ ⟨n', hn', rfl⟩ hover
      obtain ⟨p, hp, hkey⟩ := hall n' hn' hover
      obtain ⟨s, hs⟩ := h.inv.exists_byDst hp
      exact .of_mem (hinner.mono (Set.subset_univ _)) hinner.strictCmp ⟨s, hkey ▸ hs⟩
        ((hinner.eq_iff trivial trivial).mpr rfl)
  obtain ⟨e, he⟩ := hcaught.exists_entry
    (h.apart.orderOn_dst.mono fun q hq => ⟨hkeys q hq, trivial⟩) h.inv.sorted_byDst
    (fun _ => Iff.rfl) env.dstSearch
  obtain ⟨n', hn', hrange⟩ := hkeys e.1 ⟨e.2, (mem_of_entry he).1⟩
  have hne : NetAddress.ofRange e.1.1 ≠ n := by
    rw [← hrange, h.apart.readsBack n' hn']
    rintro rfl
    exact hnew hn'
  rw [dstConflict, bind_some, entryKey, he, elim_some, if_pos hne]
  exact some_ne_none _

/-- Every overlapped subnet has a route with the message and the gateway: one of them is found. -/
private theorem gwConflict_of_all (hall : ∀ n' ∈ r.nets, n.Overlaps n' →
    ∃ p ∈ r.routeEntries, p.2.gwKey = (g, .ofNet n', m)) : r.gwConflict env m n g ≠ none := by
  have hN : r.NetsIn r.nets := netsIn_iff.mpr subset_rfl
  have hkeys : ∀ q : GwKey, q ∈ {q | ∃ key, (q, key) ∈ r.byGw} →
      q.2.1 ∈ ofNet '' r.nets :=
    fun q ⟨key, hkey⟩ => (h.inv.keysIn_byGw hN _ hkey).2.1
  have hcaught : Caught gwCmp {q | ∃ key, (q, key) ∈ r.byGw} (g, .ofNet n, m) := by
    have hgws : OrderOn gatewayCmp Set.univ := orderOn_gatewayCmp
    refine Caught.lex hgws hgws.strictCmp (fun _ _ => trivial)
      ⟨g, trivial, (hgws.eq_iff trivial trivial).mpr rfl⟩ fun g' _ hg => ?_
    obtain rfl := (hgws.eq_iff trivial trivial).mp hg
    refine Caught.lex h.apart.orderOn strictCmp_cmp (fun q hq => hkeys _ hq) ?_ ?_
    · obtain ⟨n', hn', hover⟩ := hover
      exact ⟨_, ⟨n', hn', rfl⟩, hover⟩
    · rintro _ ⟨n', hn', rfl⟩ hover
      obtain ⟨p, hp, hkey⟩ := hall n' hn' hover
      have hmsg : OrderOn KeyData.cmp Set.univ := KeyData.orderOn_cmp
      exact .of_mem KeyData.orderOn_cmp hmsg.strictCmp
        ⟨p.1, (h.inv.mem_byGw _ _).mpr ⟨p.2, hp, hkey⟩⟩ (KeyData.cmp_self m)
  obtain ⟨e, he⟩ := hcaught.exists_entry
    (h.apart.orderOn_gw.mono fun q hq => ⟨trivial, hkeys q hq, trivial⟩) h.inv.sorted_byGw
    (fun _ => Iff.rfl) env.gwSearch
  obtain ⟨n', hn', hrange⟩ := hkeys e.1 ⟨e.2, (mem_of_entry he).1⟩
  have hne : NetAddress.ofRange e.1.2.1 ≠ n := by
    rw [← hrange, h.apart.readsBack n' hn']
    rintro rfl
    exact hnew hn'
  rw [gwConflict, entryKey, he, elim_some, if_pos hne]
  exact some_ne_none _

end Found

/-- A subnet that is not read back from its range is always refused. -/
private theorem gwConflict_of_not_readsBack {m : LocalTypeKey} {n : NetAddress} (h : Sound r)
    (hn : ¬ n.ReadsBack) : r.gwConflict env m n g ≠ none := by
  have hne : NetAddress.ofRange (entryKey gwCmp (g, .ofNet n, m) r.byGw env.gwSearch).2.1 ≠ n := by
    rw [entryKey]
    cases he : entry gwCmp (g, .ofNet n, m) r.byGw env.gwSearch with
    | none => exact hn
    | some f =>
      -- the subnets that are stored are read back
      obtain ⟨e, he, heq⟩ := (h.inv.mem_byGw _ _).mp (mem_of_entry he).1
      have hback : e.dstNet.ReadsBack := h.apart.readsBack _ ⟨_, he, rfl⟩
      rw [elim_some, ← heq]
      rintro rfl
      exact hn (by rw [NetAddress.ReadsBack, RouteEntry.gwKey, hback, hback])
  rw [gwConflict, if_pos hne]
  exact some_ne_none _

/-- **A call under the condition** is refused and changes nothing, or its destination fits. -/
theorem apply_cases (h : Sound r) (hc : Collides r c) :
    (∃ net, r.apply env c = .ok (r, .error (.conflict net))) ∨
      ¬ Clashes r c ∧ Apart (Insert.insert c.destination r.nets) := by
  by_cases hclash : Clashes r c
  · -- the destination itself is not stored, since it would overlap a stored subnet
    obtain ⟨p, hp, hover, hne⟩ := hclash
    have hnew : c.destination ∉ r.nets := fun hmem =>
      hne (h.apart.eq_of_overlaps _ hmem _ ⟨p, hp, rfl⟩ hover).symm
    have hother : ∀ {n}, n ∈ r.nets → n ≠ c.destination := fun hn heq => hnew (heq ▸ hn)
    refine .inl (apply_of_conflict env (hc.imp (fun hc => ?_) fun hc => ?_))
    · obtain ⟨p₀, -, -, -, hx⟩ := hc p hp hover hne
      rw [hx]
      refine dstConflict_of_all env h hnew ⟨_, ⟨p, hp, rfl⟩, hover⟩ ?_
      rintro _ ⟨q, hq, rfl⟩ hover'
      obtain ⟨q', hq', hnet, hmsg, hx'⟩ := hc q hq hover' (hother ⟨q, hq, rfl⟩)
      refine ⟨q', hq', ?_⟩
      rw [RouteEntry.dstKey, hnet, hmsg, some.inj (hx'.symm.trans hx)]
    · refine gwConflict_of_all env h hnew ⟨_, ⟨p, hp, rfl⟩, hover⟩ ?_
      rintro _ ⟨q, hq, rfl⟩ hover'
      obtain ⟨q', hq', hnet, hmsg, hgw⟩ := hc q hq hover' (hother ⟨q, hq, rfl⟩)
      refine ⟨q', hq', ?_⟩
      rw [RouteEntry.gwKey, hnet, hmsg, hgw]
  by_cases hback : c.destination.ReadsBack
  · refine .inr ⟨hclash, h.apart.insert hback fun n' hn' hover => ?_⟩
    obtain ⟨p, hp, rfl⟩ := hn'
    by_contra hne
    exact hclash ⟨p, hp, hover, fun heq => hne heq.symm⟩
  · exact .inl (apply_of_conflict env (.inr (gwConflict_of_not_readsBack env h hback)))

/-- A call whose destination fits. -/
theorem apply_spec (hA : Apart N) (hN : r.NetsIn N) (hinv : Inv r) (hc : c.destination ∈ N) :
    ∃ r', r.apply env c = .ok (r', .ok (r.table c.id)) ∧
      Inv r' ∧ r'.NetsIn N ∧ r'.table = r.table.set c :=
  setRoute_spec env hA hN hinv hc

/-! ### Runs -/

/-- A call of `set_route`, with what the containers decide in it; after a panic there is no registry
any more. -/
def step (r : RouteRegistry) (l : Env × SetRoute) : Option RouteRegistry :=
  match r.apply l.1 l.2 with
  | .ok (r', _) => some r'
  | .error _ => none

theorem sound_empty : Sound empty where
  inv := inv_empty
  apart := ⟨fun _ ⟨_, hp, _⟩ => absurd hp List.not_mem_nil,
    fun _ ⟨_, hp, _⟩ => absurd hp List.not_mem_nil⟩

private theorem sound_of_step {l : Env × SetRoute} (h : Sound r) (hc : Collides r l.2)
    (hs : step r l = some r') : Sound r' := by
  rw [step] at hs
  rcases apply_cases l.1 h hc with ⟨net, happly⟩ | ⟨-, hA⟩
  · rw [happly] at hs
    exact some.inj hs ▸ h
  · obtain ⟨r₁, happly, hinv, hN, -⟩ := apply_spec l.1 hA
      (netsIn_iff.mpr (Set.subset_insert _ _)) h.inv (Set.mem_insert _ _)
    rw [happly] at hs
    exact some.inj hs ▸ ⟨hinv, hA.mono (netsIn_iff.mp hN)⟩

/-- **The destinations stay disjoint** over every run whose calls all collide with what they
overlap, whatever the containers decide in each of them: two stored subnets are equal or their
ranges have no address in common, and a destination that overlaps a stored subnet without being
equal to it is refused, which changes nothing. -/
theorem nets_disjoint_of_reaches {r : RouteRegistry}
    (h : Reaches step (fun r l => Collides r l.2) empty r) :
    (∀ p ∈ r.routeEntries, ∀ p' ∈ r.routeEntries, p.2.dstNet = p'.2.dstNet ∨
      ∀ a, ¬ ((ofNet p.2.dstNet).Mem a ∧ (ofNet p'.2.dstNet).Mem a)) ∧
    ∀ env c, Collides r c → Clashes r c →
      ∃ net, r.apply env c = .ok (r, .error (.conflict net)) := by
  have hsound : Sound r := h.invariant sound_empty sound_of_step
  refine ⟨fun p hp p' hp' => or_iff_not_imp_right.mpr fun hcommon => ?_, fun env c hc hclash => ?_⟩
  · push Not at hcommon
    obtain ⟨a, ha, ha'⟩ := hcommon
    exact hsound.apart.eq_of_overlaps _ ⟨p, hp, rfl⟩ _ ⟨p', hp', rfl⟩ (ha.overlap ha')
  · rcases apply_cases env hsound hc with happly | ⟨hno, -⟩
    · exact happly
    · exact absurd hclash hno

/-- The subnet `<f:100>/60` inside of `<f:100>/56`. -/
def netF1Inner : NetAddress := ⟨⟨0xf000000000000100#64⟩, .ofLevel 4⟩

/-- The subnet `<f:110>/60` next to it. -/
def netF1Next : NetAddress := ⟨⟨0xf000000000000110#64⟩, .ofLevel 4⟩

/-- The subnet `<f:100>/59` over both. -/
def netF1Both : NetAddress := ⟨⟨0xf000000000000100#64⟩, .ofLevel 5⟩

/-- Two subnets through one gateway, and one over both of them, which is refused. -/
theorem nets_disjoint_of_reaches_refused :
    ∃ r, Reaches step (fun r l => Collides r l.2) empty r ∧ r.routeEntries.length = 2 ∧
      ∃ net, r.apply plainEnv ⟨sampleKey, netF1Both, some ⟨0xa101#64⟩, some 3⟩ =
        .ok (r, .error (.conflict net)) := by
  have hreach : Reaches step (fun r l => Collides r l.2) empty _ := reaches_get
    [(plainEnv, ⟨sampleKey, netF1Inner, some ⟨0xa101#64⟩, some 1⟩),
      (plainEnv, ⟨sampleKey, netF1Next, some ⟨0xa101#64⟩, some 2⟩)] (by decide)
  refine ⟨_, hreach, by decide, (nets_disjoint_of_reaches hreach).2 plainEnv _ ?_ ?_⟩
  · decide
  · decide

/-- The same subnet through another gateway with another metric is accepted. -/
theorem overlapping_nets_accepted :
    ∃ r, Reaches step (fun _ _ => True) empty r ∧
      ∃ a, ∃ p ∈ r.routeEntries, ∃ p' ∈ r.routeEntries, p.2.dstNet ≠ p'.2.dstNet ∧
        (ofNet p.2.dstNet).Mem a ∧ (ofNet p'.2.dstNet).Mem a := by
  refine ⟨_, reaches_get [(plainEnv, ⟨sampleKey, netF1, some ⟨0xa101#64⟩, some 1⟩),
    (plainEnv, ⟨sampleKey, netF1Inner, some ⟨0xa102#64⟩, some 2⟩)] (by decide),
    ⟨0xf000000000000100#64⟩, ?_⟩
  decide

end RouteRegistry

end Mm1
