import Mm1.Multinode.RouteRun

/-!
# Looking up a route

`find_route` looks for the first key at or after `(address, message, 0)` in the order of
destinations, messages and metrics. It checks that the message of this key is the one sought, and
not that the destination contains the address. When no route for the message covers the address, the
next key may be that of a destination further up, and if the message is right, its route is the
answer.

* `findRoute_sound_iff`: when `find_route` answers as it should;
* `findRoute_beyond`: a route to another subnet is found.
-/

namespace Mm1

open OrderedMap

namespace RouteRegistry

variable {env : Env} {r : RouteRegistry} {N : Set NetAddress} {m : LocalTypeKey} {a : Address}

/-- Some stored route for the message has the address in its destination. -/
def Covers (r : RouteRegistry) (m : LocalTypeKey) (a : Address) : Prop :=
  ∃ n g x, (m, n, g, x) ∈ r.allRoutes ∧ n.Contains a.intoU64

/-- `find_route` answers with a stored route that covers the address, and with `NoRoute` when there
is none. -/
def FindsCovering (env : Env) (r : RouteRegistry) (m : LocalTypeKey) (a : Address) : Prop :=
  (∀ g x, r.findRoute env m a = .ok (.ok (g, x)) →
    ∃ n, (m, n, g, x) ∈ r.allRoutes ∧ n.Contains a.intoU64) ∧
  (¬ r.Covers m a → r.findRoute env m a = .ok (.error .noRoute))

/-- The key that `find_route` looks for. -/
def lookupKey (m : LocalTypeKey) (a : Address) : DstKey := (.ofAddress a, m, 0)

/-- Every stored route for the message that `find_route` could run into has a route for another
message before it, which stops the lookup. -/
def Shielded (r : RouteRegistry) (m : LocalTypeKey) (a : Address) : Prop :=
  ∀ p ∈ r.routeEntries, p.2.message = m → dstCmp (lookupKey m a) p.2.dstKey ≠ .gt →
    ∃ q ∈ r.routeEntries, q.2.message ≠ m ∧ dstCmp (lookupKey m a) q.2.dstKey ≠ .gt ∧
      dstCmp q.2.dstKey p.2.dstKey = .lt

section Lookup

variable (hA : Apart N) (hN : r.NetsIn N) (h : Inv r)

include hA

theorem probe_lookupKey : Probe dstCmp (Apart.dstKeys N) (lookupKey m a) := by
  refine Probe.lex hA.orderOn AddressRange.probe_ofAddress ?_
  rw [← Set.univ_prod_univ]
  exact (KeyData.orderOn_cmp.lex orderOn_compare).probe ⟨trivial, trivial⟩

include hN h

/-- **Where the lookup stops**: a route for another message, or none, if and only if the routes for
the message are shielded. -/
theorem shielded_iff (env : Env) : r.Shielded m a ↔
    ∀ q s, next dstCmp (lookupKey m a) r.byDst env.dstSearch = some (q, s) → q.2.1 ≠ m := by
  have hprobe := probe_lookupKey (m := m) (a := a) hA
  have hkeys := (h.multiOk hN).keysIn
  constructor
  · intro hshield q s hnext hm
    obtain ⟨key, e, he, rfl⟩ := h.exists_route (mem_of_next hnext)
    obtain ⟨p, hp, -, hle, hlt⟩ := hshield (key, e) he hm (ne_gt_of_next hnext)
    obtain ⟨t, ht⟩ := h.exists_byDst hp
    -- the lookup stops at `p` or before it, and `p` is before the place where it has stopped
    obtain ⟨f, hf, -, hfp⟩ := exists_next h.sorted_byDst hkeys hprobe ht hle
    obtain rfl : _ = f := Option.some.inj (hnext.symm.trans hf)
    have hself : dstCmp e.dstKey e.dstKey = .eq :=
      (hA.orderOn_dst.eq_iff (hkeys _ (mem_of_next hnext)) (hkeys _ (mem_of_next hnext))).mpr rfl
    rcases hfp with heq | hfp
    · rw [(Prod.mk.inj heq).1] at hlt hself
      rw [hlt] at hself
      contradiction
    · have htrans := hA.orderOn_dst.trans (hkeys _ (mem_of_next hnext)) (hkeys _ ht)
        (hkeys _ (mem_of_next hnext)) hfp hlt
      rw [htrans] at hself
      contradiction
  · rintro hnext ⟨key, e⟩ he hm hle
    obtain ⟨t, ht⟩ := h.exists_byDst he
    obtain ⟨⟨q, s⟩, hf, hfle, hfe⟩ := exists_next h.sorted_byDst hkeys hprobe ht hle
    obtain ⟨key', e', he', rfl⟩ := h.exists_route (mem_of_next hf)
    refine ⟨(key', e'), he', hnext _ s hf, hfle, hfe.resolve_left fun heq => ?_⟩
    exact hnext _ s hf ((Prod.mk.inj heq).1 ▸ hm)

private theorem findRoute_eq_noRoute_iff (env : Env) :
    r.findRoute env m a = .ok (.error .noRoute) ↔ r.Shielded m a := by
  rw [shielded_iff hA hN h env]
  constructor
  · intro hfind q s hnext hm
    obtain ⟨_, e, -, -, hok⟩ := findRoute_of_next env h hnext hm
    rw [hfind] at hok
    have := Except.ok.inj hok
    contradiction
  · exact findRoute_of_not_next env

end Lookup

/-- **When `find_route` answers as it should**: some route for the message covers the address, or
the routes for the message are shielded by routes for others. -/
theorem findRoute_sound_iff (env : Env) {calls : List SetRoute}
    (hcanon : ∀ c ∈ calls, c.destination.IsAligned)
    (hdisj : ∀ c ∈ calls, ∀ c' ∈ calls,
      c.destination = c'.destination ∨ c.destination.Disjoint c'.destination)
    {answers : List (Except SetRouteError (Option RouteMetric))}
    (hr : setRoutes env empty calls = .ok (r, answers)) (m : LocalTypeKey) (a : Address) :
    FindsCovering env r m a ↔ r.Covers m a ∨ r.Shielded m a := by
  have hA := apart_destinations hcanon hdisj
  have hN : NetsIn empty {n | ∃ c ∈ calls, c.destination = n} := fun p hp =>
    absurd hp List.not_mem_nil
  obtain ⟨r', hr', hinv, hN', -⟩ := setRoutes_spec env hA hN inv_empty fun c hc => ⟨c, hc, rfl⟩
  obtain rfl : r' = r := congrArg Prod.fst (Except.ok.inj (hr'.symm.trans hr))
  have href := hinv.refines env hA hN' fun n ⟨c, hc, hn⟩ => hn ▸ hcanon c hc
  by_cases hcover : r'.Covers m a
  · refine iff_of_true ⟨fun g x hfind => ?_, fun hnot => absurd hcover hnot⟩ (.inl hcover)
    obtain ⟨n, g', x', hmem, ha⟩ := hcover
    obtain ⟨g₁, n₁, x₁, hx₁, ha₁, -, hfind₁⟩ :=
      href.findRoute m a ⟨g', n, x', (href.mem_allRoutes m n g' x').mp hmem, ha⟩
    rw [hfind₁] at hfind
    obtain ⟨rfl, rfl⟩ := Prod.mk.inj (Except.ok.inj (Except.ok.inj hfind))
    exact ⟨n₁, (href.mem_allRoutes m n₁ g₁ x₁).mpr hx₁, ha₁⟩
  · rw [or_iff_right hcover, ← findRoute_eq_noRoute_iff hA hN' hinv env]
    constructor
    · exact fun hfinds => hfinds.2 hcover
    · intro hfind
      refine ⟨fun g x hok => ?_, fun _ => hfind⟩
      rw [hfind] at hok
      have := Except.ok.inj hok
      contradiction

/-- A route for another message to the subnet of the address stops the lookup. -/
theorem findRoute_sound_shielded :
    ∃ r, setRoutes plainEnv empty
        [⟨.null, netF1, none, some 0⟩, ⟨sampleKey, netF2, some ⟨0xa101#64⟩, some 1⟩] =
          .ok (r, [.ok none, .ok none]) ∧
      FindsCovering plainEnv r sampleKey ⟨0xf000000000000105#64⟩ ∧
      FindsCovering plainEnv r sampleKey ⟨0xf000000000000205#64⟩ := by
  obtain ⟨r, hr, hentries⟩ : ∃ r, setRoutes plainEnv empty
      [⟨.null, netF1, none, some 0⟩, ⟨sampleKey, netF2, some ⟨0xa101#64⟩, some 1⟩] =
        .ok (r, [.ok none, .ok none]) ∧
      r.routeEntries =
        [(1, ⟨.null, netF1, none, 0⟩), (2, ⟨sampleKey, netF2, some ⟨0xa101#64⟩, 1⟩)] :=
    ⟨_, rfl, rfl⟩
  have hiff := findRoute_sound_iff plainEnv (by decide) ?_ hr sampleKey
  · refine ⟨r, hr, (hiff _).mpr (.inr ?_), (hiff _).mpr (.inl ?_)⟩
    · rw [Shielded, hentries]
      decide
    · exact ⟨netF2, some ⟨0xa101#64⟩, 1, by rw [allRoutes, hentries]; decide, by decide⟩
  · simp only [List.forall_mem_cons, List.not_mem_nil, false_implies, implies_true, and_true]
    exact ⟨⟨.inl trivial, .inr netF1_disjoint⟩, .inr netF1_disjoint.symm, .inl trivial⟩

/-- **A route to another subnet is found**: the only route is to a subnet above the address. -/
theorem findRoute_beyond :
    ∃ r, setRoutes plainEnv empty [⟨sampleKey, netF2, some ⟨0xa101#64⟩, some 1⟩] =
        .ok (r, [.ok none]) ∧
      r.allRoutes = [(sampleKey, netF2, some ⟨0xa101#64⟩, 1)] ∧
      ¬ netF2.Contains 0xf000000000000105#64 ∧
      r.findRoute plainEnv sampleKey ⟨0xf000000000000105#64⟩ =
        .ok (.ok (some ⟨0xa101#64⟩, 1)) :=
  ⟨_, rfl, rfl, by decide, rfl⟩

end RouteRegistry

end Mm1
