import Mathlib.Algebra.GroupWithZero.Nat
import Mathlib.Algebra.Order.BigOperators.Group.List
import Mathlib.Algebra.Order.Group.Nat
import Mm1.Multinode.RouteTable

/-!
# Sequences of `set_route` calls

* `setRoutes_refines`: with canonical destinations that are equal or disjoint, the registry is the
  finite map that the calls describe.
-/

namespace Mm1

open OrderedMap List

/-- What a `SetRoute` is about. -/
def SetRoute.id (c : SetRoute) : RouteId := (c.via, c.destination, c.message)

namespace Table

/-- The map without routes. -/
def empty : Table := fun _ => none

/-- A call stores or deletes a metric. -/
def set (M : Table) (c : SetRoute) : Table := Function.update M c.id c.metric

/-- The map after the calls, and the metrics there were before each of them. -/
def setRoutes (M : Table) : List SetRoute → Table × List (Option RouteMetric)
  | [] => (M, [])
  | c :: cs =>
    let (M', olds) := (M.set c).setRoutes cs
    (M', M c.id :: olds)

end Table

namespace RouteRegistry

variable (env : Env) {r : RouteRegistry} {N : Set NetAddress} {calls : List SetRoute}
  {m : LocalTypeKey} {x : RouteMetric} {n : NetAddress} {g : Option Address}

/-- The registry after the calls, and their answers. -/
def setRoutes (env : Env) (r : RouteRegistry) : List SetRoute →
    Except Panic (RouteRegistry × List (Except SetRouteError (Option RouteMetric)))
  | [] => .ok (r, [])
  | c :: cs => do
    let (r, answer) ← r.setRoute env c.message c.destination c.via c.metric
    let (r, answers) ← setRoutes env r cs
    return (r, answer :: answers)

/-- **The registry is the map `M`**, as far as its lookups can tell. -/
structure Refines (env : Env) (r : RouteRegistry) (M : Table) : Prop where
  nodup_allRoutes : r.allRoutes.Nodup
  mem_allRoutes : ∀ m n g x, (m, n, g, x) ∈ r.allRoutes ↔ M (g, n, m) = some x
  nodup_allRoutesByGw : ∀ gw, (r.allRoutesByGw gw).Nodup
  mem_allRoutesByGw : ∀ gw m n x, (m, n, x) ∈ r.allRoutesByGw gw ↔ M (some gw, n, m) = some x
  containsNet : ∀ n, r.containsNet env n = true ↔ ∃ g m x, M (g, n, m) = some x
  findRoute_ok : ∀ m a, ∃ answer, r.findRoute env m a = .ok answer
  findRoute : ∀ m a, (∃ g n x, M (g, n, m) = some x ∧ n.Contains a.intoU64) →
    ∃ g n x, M (g, n, m) = some x ∧ n.Contains a.intoU64 ∧
      (∀ g' n' x', M (g', n', m) = some x' → n'.Contains a.intoU64 → x ≤ x') ∧
      r.findRoute env m a = .ok (.ok (g, x))

/-- The run lemma: `setRoute_spec` for each call. -/
theorem setRoutes_spec (hA : Apart N) (hN : r.NetsIn N) (h : Inv r)
    (hcalls : ∀ c ∈ calls, c.destination ∈ N) :
    ∃ r', setRoutes env r calls = .ok (r', (r.table.setRoutes calls).2.map .ok) ∧
      Inv r' ∧ r'.NetsIn N ∧ r'.table = (r.table.setRoutes calls).1 := by
  induction calls generalizing r with
  | nil => exact ⟨r, rfl, h, hN, rfl⟩
  | cons c cs ih =>
    obtain ⟨r₁, hr₁, hinv, hN₁, htable⟩ := setRoute_spec env (m := c.message)
      (g := c.via) (x := c.metric) hA hN h (hcalls c (mem_cons_self ..))
    obtain ⟨r₂, hr₂, hrest⟩ := ih hN₁ hinv fun c' hc' => hcalls c' (mem_cons_of_mem _ hc')
    have hset : r₁.table = r.table.set c := htable
    rw [hset] at hr₂ hrest
    refine ⟨r₂, ?_, hrest⟩
    rw [setRoutes, hr₁]
    simp only [bind, Except.bind, hr₂, pure, Except.pure]
    rfl

/-- No two routes of the slot map are about the same. -/
private theorem Inv.pairwise_id (h : Inv r) (hA : Apart N) (hN : r.NetsIn N) :
    r.routeEntries.Pairwise fun p p' => p.2.id ≠ p'.2.id := by
  refine List.Pairwise.imp_of_mem ?_ (pairwise_map.mp h.nodup)
  intro p p' hp hp' hne hid
  exact hne (h.key_unique hA hN hp hp' hid)

theorem mem_allRoutes_iff :
    (m, n, g, x) ∈ r.allRoutes ↔ ∃ key, (key, RouteEntry.mk m n g x) ∈ r.routeEntries := by
  rw [allRoutes, mem_map]
  constructor
  · rintro ⟨⟨key, m, n, g, x⟩, hmem, heq⟩
    simp only [Prod.mk.injEq] at heq
    obtain ⟨rfl, rfl, rfl, rfl⟩ := heq
    exact ⟨key, hmem⟩
  · rintro ⟨key, hmem⟩
    exact ⟨_, hmem, rfl⟩

theorem Inv.nodup_allRoutes (h : Inv r) (hA : Apart N) (hN : r.NetsIn N) : r.allRoutes.Nodup := by
  refine pairwise_map.mpr ((h.pairwise_id hA hN).imp fun {p p'} hne heq => hne ?_)
  simp only [Prod.mk.injEq] at heq
  rw [RouteEntry.id, heq.1, heq.2.1, heq.2.2.1, RouteEntry.id]

theorem Inv.mem_allRoutes (h : Inv r) (hA : Apart N) (hN : r.NetsIn N) :
    (m, n, g, x) ∈ r.allRoutes ↔ r.table (g, n, m) = some x := by
  rw [mem_allRoutes_iff, h.table_eq_some_iff hA hN]

theorem mem_allRoutesByGw_iff {gw : Address} :
    (m, n, x) ∈ r.allRoutesByGw gw ↔
      ∃ key, (key, RouteEntry.mk m n (some gw) x) ∈ r.routeEntries := by
  rw [allRoutesByGw, mem_filterMap]
  constructor
  · rintro ⟨⟨key, m', n', g', x'⟩, hmem, heq⟩
    obtain ⟨rfl, heq⟩ := Option.ite_none_right_eq_some.mp heq
    simp only [Option.some.injEq, Prod.mk.injEq] at heq
    obtain ⟨rfl, rfl, rfl⟩ := heq
    exact ⟨key, hmem⟩
  · rintro ⟨key, hmem⟩
    exact ⟨_, hmem, if_pos rfl⟩

/-- What the lookups can tell is the table. -/
theorem Inv.refines (h : Inv r) (hA : Apart N) (hN : r.NetsIn N)
    (hcanon : ∀ n ∈ N, n.IsAligned) : Refines env r r.table where
  nodup_allRoutes := h.nodup_allRoutes hA hN
  mem_allRoutes _ _ _ _ := h.mem_allRoutes hA hN
  nodup_allRoutesByGw gw := by
    refine pairwise_filterMap.mpr ((h.pairwise_id hA hN).imp fun {p p'} hne q hq q' hq' => ?_)
    obtain ⟨hgw, hq⟩ := Option.ite_none_right_eq_some.mp hq
    obtain ⟨hgw', hq'⟩ := Option.ite_none_right_eq_some.mp hq'
    rintro rfl
    have heq := hq.trans hq'.symm
    simp only [Option.some.injEq, Prod.mk.injEq] at heq
    exact hne (by rw [RouteEntry.id, hgw, heq.1, heq.2.1, RouteEntry.id, hgw'])
  mem_allRoutesByGw gw m n x := by
    rw [mem_allRoutesByGw_iff, h.table_eq_some_iff hA hN]
  containsNet n := by
    rw [containsNet_iff env hA hN h]
    constructor
    · rintro ⟨⟨key, m, n, g, x⟩, hmem, rfl⟩
      exact ⟨g, m, x, (h.table_eq_some_iff hA hN).mpr ⟨key, hmem⟩⟩
    · rintro ⟨g, m, x, hx⟩
      obtain ⟨key, hmem⟩ := (h.table_eq_some_iff hA hN).mp hx
      exact ⟨_, hmem, rfl⟩
  findRoute_ok := findRoute_ok env h
  findRoute m a := by
    rintro ⟨g, n, x, hx, ha⟩
    obtain ⟨key, hmem⟩ := (h.table_eq_some_iff hA hN).mp hx
    have hcontains : ∀ {key m n g x}, (key, RouteEntry.mk m n g x) ∈ r.routeEntries →
        ((AddressRange.ofNet n).Mem a ↔ n.Contains a.intoU64) := fun hk =>
      AddressRange.mem_ofNet (hcanon _ (hN _ hk))
    obtain ⟨y, s, hnext, -⟩ := exists_next_of_mem env hA hN h hmem ((hcontains hmem).mpr ha)
    obtain ⟨key', ⟨m', n', g', y'⟩, hmem', hkey, hfind⟩ := findRoute_of_next env h hnext rfl
    simp only [RouteEntry.dstKey, Prod.mk.injEq] at hkey
    obtain ⟨hnet, rfl, rfl⟩ := hkey
    obtain rfl := hA.ofNet_inj (hN _ hmem') (hN _ hmem) hnet
    refine ⟨g', n', y', (h.table_eq_some_iff hA hN).mpr ⟨key', hmem'⟩, ha, ?_, hfind⟩
    -- the lookup stops at the same key whichever route it is looked for
    intro g₂ n₂ x₂ hx₂ ha₂
    obtain ⟨key₂, hmem₂⟩ := (h.table_eq_some_iff hA hN).mp hx₂
    obtain ⟨y₂, s₂, hnext₂, hle⟩ := exists_next_of_mem env hA hN h hmem₂ ((hcontains hmem₂).mpr ha₂)
    rw [hnext, Option.some.injEq, Prod.mk.injEq, Prod.mk.injEq, Prod.mk.injEq] at hnext₂
    rwa [hnext₂.1.2.2]

/-- Canonical subnets that are equal or disjoint do not overlap. -/
theorem apart_of_disjoint {N : Set NetAddress} (hcanon : ∀ n ∈ N, n.IsAligned)
    (hdisj : ∀ n ∈ N, ∀ n' ∈ N, n = n' ∨ n.Disjoint n') : Apart N where
  readsBack n hn := NetAddress.ofRange_ofNet (hcanon n hn)
  eq_of_overlaps n hn n' hn' hover :=
    (hdisj n hn n' hn').resolve_right fun hd =>
      AddressRange.cmp_ofNet_ne_eq (hcanon n hn) (hcanon n' hn') hd hover

theorem apart_destinations (hcanon : ∀ c ∈ calls, c.destination.IsAligned)
    (hdisj : ∀ c ∈ calls, ∀ c' ∈ calls,
      c.destination = c'.destination ∨ c.destination.Disjoint c'.destination) :
    Apart {n | ∃ c ∈ calls, c.destination = n} := by
  refine apart_of_disjoint ?_ ?_
  · rintro n ⟨c, hc, rfl⟩
    exact hcanon c hc
  · rintro n ⟨c, hc, rfl⟩ n' ⟨c', hc', rfl⟩
    exact hdisj c hc c' hc'

/-- **The registry refines the finite map.** With canonical destinations that are pairwise equal
or disjoint, no call fails or is refused, each answers with the metric there was, and the registry
is the map after the calls. -/
theorem setRoutes_refines (env : Env) (calls : List SetRoute)
    (hcanon : ∀ c ∈ calls, c.destination.IsAligned)
    (hdisj : ∀ c ∈ calls, ∀ c' ∈ calls,
      c.destination = c'.destination ∨ c.destination.Disjoint c'.destination) :
    ∃ r, setRoutes env empty calls = .ok (r, (Table.empty.setRoutes calls).2.map .ok) ∧
      Refines env r (Table.empty.setRoutes calls).1 := by
  have hA := apart_destinations hcanon hdisj
  have hN : NetsIn empty {n | ∃ c ∈ calls, c.destination = n} := fun p hp =>
    absurd hp not_mem_nil
  obtain ⟨r, hr, hinv, hN', htable⟩ := setRoutes_spec env hA hN inv_empty fun c hc =>
    ⟨c, hc, rfl⟩
  refine ⟨r, hr, ?_⟩
  have href : Refines env r r.table := hinv.refines env hA hN' fun n ⟨c, hc, hn⟩ => hn ▸ hcanon c hc
  rw [htable] at href
  exact href

/-! ### A run -/

/-- A slot map that numbers its values, sets in the order of their lists, and maps that are searched
from left to right. -/
def plainEnv : Env where
  alloc live := (live.sum + 1, live.length)
  alloc_fresh _ hmem := absurd (le_sum_of_mem hmem) (Nat.not_succ_le_self _)
  iter := id
  iter_perm s := List.Perm.refl s
  addrHash a := a.intoU64.toNat
  gwSearch := .scan
  dstSearch := .scan

/-- The key of some message type. -/
def sampleKey : LocalTypeKey := slotKey 1

/-- The subnets `<f:100>/56` and `<f:200>/56`. -/
def netF1 : NetAddress := ⟨⟨0xf000000000000100#64⟩, ⟨56, by decide⟩⟩

def netF2 : NetAddress := ⟨⟨0xf000000000000200#64⟩, ⟨56, by decide⟩⟩

theorem netF1_disjoint : netF1.Disjoint netF2 := by
  rintro a ⟨h₁, h₂⟩
  exact absurd (h₁.symm.trans h₂) (by decide)

/-- Two gateways to one subnet and one to another; the better of the two becomes the worse. -/
def sampleCalls : List SetRoute :=
  [⟨sampleKey, netF1, some ⟨0xa101#64⟩, some 1⟩, ⟨sampleKey, netF1, some ⟨0xa102#64⟩, some 2⟩,
    ⟨sampleKey, netF2, some ⟨0xa101#64⟩, some 7⟩, ⟨sampleKey, netF1, some ⟨0xa101#64⟩, some 3⟩,
    ⟨sampleKey, netF1, some ⟨0xa102#64⟩, none⟩]

/-- Two gateways for one subnet. -/
theorem setRoutes_refines_sample :
    ∃ r, setRoutes plainEnv empty sampleCalls =
        .ok (r, [.ok none, .ok none, .ok none, .ok (some 1), .ok (some 2)]) ∧
      Refines plainEnv r (Table.empty.setRoutes sampleCalls).1 := by
  refine setRoutes_refines plainEnv sampleCalls (by decide) ?_
  intro c hc c' hc'
  have hnet : ∀ c ∈ sampleCalls, c.destination = netF1 ∨ c.destination = netF2 := by decide
  rcases hnet c hc with h | h <;> rcases hnet c' hc' with h' | h' <;> rw [h, h']
  · exact .inl rfl
  · exact .inr netF1_disjoint
  · exact .inr netF1_disjoint.symm
  · exact .inl rfl

end RouteRegistry

end Mm1
