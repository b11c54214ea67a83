import Mm1.Lib.Least
import Mm1.Multinode.RouteConflict
import Mm1.Multinode.RouteLookup

/-!
# What a connection announces

A connection keeps a `RouteRegistry` of its own, fed with the `SetRoute` messages of the manager,
and announces routes to its peer (`handle_set_routes`). It announces the metric of the update when
the update changes the metric that `find_route` tells for the lowest address of the destination,
unless the route goes through the connection itself.

What the peer is meant to know of a message and a destination is the least metric of the routes
that do not go through the connection (`peerMetric`). It knows the metric last written
(`lastWritten`).

* `visible_iff`: whether an update changes what `find_route` tells, from the routes that are stored;
* `Announces`: the condition on an update under which the two stay equal;
* `lastWritten_eq_iff`: they are equal after every prefix of a list of updates if and only if
  every update meets the condition.
-/

namespace Mm1

open Fallible OrderedMap Least Option List Function AddressRange

/-- What ends a connection. -/
inductive ConnError
  | panic (panic : Panic)
  /-- `wrap_err("set_route")` -/
  | setRoute (error : SetRouteError)
  deriving DecidableEq

namespace RouteRegistry

/-- `find_route(..).map(|(_, m)| m).ok()`. -/
def seenMetric (env : Env) (r : RouteRegistry) (message : LocalTypeKey) (probe : Address) :
    Except Panic (Option RouteMetric) := do
  match ← r.findRoute env message probe with
  | .ok (_, metric) => return some metric
  | .error _ => return none

end RouteRegistry

/-- The lowest address of the destination. -/
def SetRoute.probe (c : SetRoute) : Address := (ofNet c.destination).lo

/-- The body of the loop of `handle_set_routes`, with the routes that are written to the peer. -/
def handleSetRoute (env : Env) (ownGw : Address) (r : RouteRegistry) (c : SetRoute) :
    Except ConnError (RouteRegistry × List SetRoute) := do
  let before ← (r.seenMetric env c.message c.probe).mapError .panic
  let (r', answer) ← (r.apply env c).mapError .panic
  match answer with
  | .error error => throw (.setRoute error)
  | .ok _ =>
    let after ← (r'.seenMetric env c.message c.probe).mapError .panic
    return (r', if after ≠ before ∧ c.via ≠ some ownGw then [c] else [])

/-- `handle_set_routes`. -/
def handleSetRoutes (env : Env) (ownGw : Address) (r : RouteRegistry) :
    List SetRoute → Except ConnError (RouteRegistry × List SetRoute)
  | [] => .ok (r, [])
  | c :: cs => do
    let (r, written) ← handleSetRoute env ownGw r c
    let (r, rest) ← handleSetRoutes env ownGw r cs
    return (r, written ++ rest)

/-- The metric last written for a message and a destination. -/
def lastWritten (written : List SetRoute) (m : LocalTypeKey) (n : NetAddress) :
    Option RouteMetric :=
  (written.reverse.find? fun c => c.message = m ∧ c.destination = n).bind SetRoute.metric

namespace RouteRegistry

variable (env : Env) {own : Address} {r r' : RouteRegistry} {N : Set NetAddress} {c : SetRoute}
  {m : LocalTypeKey} {n : NetAddress} {x : RouteMetric} {written : List SetRoute}
  {o : Option RouteMetric}

/-- The metrics of the routes for a message and a destination through gateways other than
`exclude`. -/
def metrics (r : RouteRegistry) (exclude : Option Address → Bool) (m : LocalTypeKey)
    (n : NetAddress) : List RouteMetric :=
  r.routeEntries.filterMap fun (_, e) =>
    if e.message = m ∧ e.dstNet = n ∧ exclude e.gw = false then some e.metric else none

/-- The least metric of the routes that do not go through the connection. -/
def peerMetric (own : Address) (r : RouteRegistry) (m : LocalTypeKey) (n : NetAddress) :
    Option RouteMetric :=
  (r.metrics (· = some own) m n).min?

/-- The metrics of the routes that an update has to compete with, but for those through
`exclude`. -/
def others (exclude : Option Address → Bool) (r : RouteRegistry) (c : SetRoute) :
    List RouteMetric :=
  r.metrics (fun g => exclude g ∨ g = c.via) c.message c.destination

/-- The metrics of the other routes of an update that the peer may be told of. -/
def rivals (own : Address) (r : RouteRegistry) (c : SetRoute) : List RouteMetric :=
  r.others (· = some own) c

/-- The key of the route in `by_dst` comes after those for the message and the subnet. -/
def Beyond (m : LocalTypeKey) (n : NetAddress) (e : RouteEntry) : Prop :=
  lexCmp AddressRange.cmp KeyData.cmp (.ofNet n, m) (.ofNet e.dstNet, e.message) = .lt

instance (m : LocalTypeKey) (n : NetAddress) (e : RouteEntry) : Decidable (Beyond m n e) :=
  inferInstanceAs (Decidable (_ = _))

/-- The next key in `by_dst` after those for the message and the subnet is one for the message too,
with another subnet and the metric `x`. -/
def Follows (r : RouteRegistry) (m : LocalTypeKey) (n : NetAddress) (x : RouteMetric) : Prop :=
  ∃ p ∈ r.routeEntries, p.2.message = m ∧ p.2.metric = x ∧ Beyond m n p.2 ∧
    ∀ q ∈ r.routeEntries, Beyond m n q.2 → dstCmp p.2.dstKey q.2.dstKey ≠ .gt

instance (r : RouteRegistry) (m : LocalTypeKey) (n : NetAddress) (x : RouteMetric) :
    Decidable (Follows r m n x) :=
  inferInstanceAs (Decidable (∃ _ ∈ _, _))

/-- The update adds the only route to its destination or removes it, and `find_route` tells the
metric of this route without it as well: that of the next key. -/
def Masked (r : RouteRegistry) (c : SetRoute) : Prop :=
  r.others (fun _ => false) c = [] ∧ (r.table c.id = none ∨ c.metric = none) ∧
    ∃ x ∈ (r.table c.id).or c.metric, r.Follows c.message c.destination x

instance (r : RouteRegistry) (c : SetRoute) : Decidable (Masked r c) :=
  inferInstanceAs (Decidable (_ ∧ _ ∧ ∃ _ ∈ _, _))

/-- **The condition on an update.** It is about a route through the connection, or changes no
metric, or some other route that the peer may be told of is not worse than both the old and the new
metric. Otherwise the new metric is not worse than that of any such route; no other route at all,
those through the connection included, is as good as both metrics; and the update is not masked. -/
def Announces (own : Address) (r : RouteRegistry) (c : SetRoute) : Prop :=
  c.via = some own ∨ r.table c.id = c.metric ∨
    Trails (· ∈ r.rivals own c) (r.table c.id) c.metric ∨
      Leads (· ∈ r.rivals own c) c.metric ∧
        ¬ Trails (· ∈ r.others (fun _ => false) c) (r.table c.id) c.metric ∧ ¬ r.Masked c

instance (own : Address) (r : RouteRegistry) (c : SetRoute) : Decidable (Announces own r c) :=
  inferInstanceAs (Decidable (_ ∨ _ ∨ _ ∨ _ ∧ _))

/-- The update changes the metric that `find_route` tells. -/
def visible (env : Env) (r : RouteRegistry) (c : SetRoute) : Bool :=
  match r.apply env c with
  | .ok (r', _) => r'.seenMetric env c.message c.probe ≠ r.seenMetric env c.message c.probe
  | .error _ => false

/-! ### One update -/

section Metrics

variable (hA : Apart N) (hN : r.NetsIn N) (h : Inv r)

include hA hN h

/-- The metrics of the routes. -/
private theorem mem_metrics_iff {exclude : Option Address → Bool} :
    x ∈ r.metrics exclude m n ↔ ∃ g, exclude g = false ∧ r.table (g, n, m) = some x := by
  rw [metrics, mem_filterMap]
  constructor
  · rintro ⟨⟨key, m', n', g, x'⟩, hmem, hsome⟩
    obtain ⟨⟨hm, hn, hg⟩, hx⟩ := ite_none_right_eq_some.mp hsome
    obtain ⟨rfl, rfl, rfl⟩ : m' = m ∧ n' = n ∧ x' = x := ⟨hm, hn, some.inj hx⟩
    exact ⟨g, hg, (h.table_eq_some_iff hA hN).mpr ⟨key, hmem⟩⟩
  · rintro ⟨g, hg, hx⟩
    obtain ⟨key, hmem⟩ := (h.table_eq_some_iff hA hN).mp hx
    exact ⟨_, hmem, if_pos ⟨rfl, rfl, hg⟩⟩

variable (own) in
private theorem isLeast_peerMetric :
    IsLeast (fun x => ∃ g, g ≠ some own ∧ r.table (g, n, m) = some x) (peerMetric own r m n) := by
  refine (isLeast_min? _).congr fun x => ?_
  simp only [mem_metrics_iff hA hN h, decide_eq_false_iff_not, ne_eq]

private theorem eq_peerMetric_iff : o = peerMetric own r m n ↔
    IsLeast (fun x => ∃ g, g ≠ some own ∧ r.table (g, n, m) = some x) o :=
  ⟨fun heq => heq ▸ isLeast_peerMetric own hA hN h,
    fun ho => ho.unique (isLeast_peerMetric own hA hN h)⟩

/-- The routes to the destination of an update: its own one and the others. -/
private theorem with_others_iff (exclude : Option Address → Bool) (hvia : exclude c.via = false) :
    (∃ g, exclude g = false ∧
      Function.update r.table c.id o (g, c.destination, c.message) = some x) ↔
        With (· ∈ r.others exclude c) o x := by
  have hid : ∀ {g}, (g, c.destination, c.message) = c.id ↔ g = c.via := by
    simp [SetRoute.id]
  rw [With, others, mem_metrics_iff hA hN h]
  simp only [decide_eq_false_iff_not, not_or, Bool.not_eq_true]
  constructor
  · rintro ⟨g, hg, hx⟩
    by_cases hgv : g = c.via
    · rw [hid.mpr hgv, Function.update_self] at hx
      exact .inr hx
    · rw [Function.update_of_ne (hid.not.mpr hgv)] at hx
      exact .inl ⟨g, ⟨hg, hgv⟩, hx⟩
  · rintro (⟨g, ⟨hg, hgv⟩, hx⟩ | hx)
    · refine ⟨g, hg, ?_⟩
      rwa [Function.update_of_ne (hid.not.mpr hgv)]
    · refine ⟨c.via, hvia, ?_⟩
      rwa [hid.mpr rfl, Function.update_self]

private theorem with_rivals_iff (hvia : c.via ≠ some own) :
    (∃ g, g ≠ some own ∧ Function.update r.table c.id o (g, c.destination, c.message) = some x) ↔
      With (· ∈ r.rivals own c) o x := by
  rw [rivals, ← with_others_iff hA hN h _ (decide_eq_false hvia)]
  simp only [decide_eq_false_iff_not, ne_eq]

end Metrics

/-! ### What `find_route` tells -/

section Seen

variable (hA : Apart N) (hN : r.NetsIn N) (h : Inv r)

include hA hN h

/-- With a route to the subnet, `find_route` tells the least metric. -/
private theorem seenMetric_of_isLeast
    (hx : IsLeast (fun x => ∃ g, r.table (g, n, m) = some x) (some x)) :
    r.seenMetric env m (ofNet n).lo = .ok (some x) := by
  obtain ⟨⟨g, hg⟩, hleast⟩ := hx
  obtain ⟨key, hkey⟩ := (h.table_eq_some_iff hA hN).mp hg
  obtain ⟨y, s, hnext, hle⟩ := exists_next_of_mem env hA hN h hkey
    ⟨le_rfl, (ofNet n).lo_le_hi⟩
  obtain ⟨key', ⟨m', n', g', y'⟩, hkey', hdst, hfind⟩ := findRoute_of_next env h hnext rfl
  simp only [RouteEntry.dstKey, Prod.mk.injEq] at hdst
  obtain ⟨hnet, rfl, rfl⟩ := hdst
  obtain rfl := hA.ofNet_inj (hN _ hkey') (hN _ hkey) hnet
  have hge := hleast y' ⟨g', (h.table_eq_some_iff hA hN).mpr ⟨key', hkey'⟩⟩
  rw [seenMetric, hfind, Std.le_antisymm hge hle]
  rfl

omit hN h in
/-- Where the lookup of the lowest address of a subnet goes, for a route that is not to it. -/
private theorem beyond_iff (hn : n ∈ N) {e : RouteEntry} (he : e.dstNet ∈ N)
    (hne : ¬ (e.message = m ∧ e.dstNet = n)) :
    dstCmp (lookupKey m (ofNet n).lo) e.dstKey ≠ .gt ↔ Beyond m n e := by
  have hiff : ∀ {o : Ordering}, o ≠ .eq → (o ≠ .gt ↔ o = .lt) := by
    rintro (_ | _ | _) <;> simp
  rw [Beyond, lookupKey, dstCmp, RouteEntry.dstKey]
  by_cases hnet : e.dstNet = n
  · -- the messages decide
    have hmsg : KeyData.cmp m e.message ≠ .eq := fun heq =>
      hne ⟨((KeyData.orderOn_cmp (S := Set.univ)).eq_iff trivial trivial |>.mp heq).symm, hnet⟩
    have hlo : AddressRange.cmp (.ofAddress (ofNet n).lo) (.ofNet n) = .eq :=
      cmp_ofAddress.mpr ⟨le_rfl, (ofNet n).lo_le_hi⟩
    rw [hnet, lexCmp_of_eq hlo, lexCmp_of_ne hmsg, lexCmp_of_eq (cmp_self (.ofNet n))]
    exact hiff hmsg
  · have hcmp : AddressRange.cmp (.ofNet n) (.ofNet e.dstNet) ≠ .eq := fun heq =>
      hnet (hA.eq_of_overlaps n hn _ he heq).symm
    have hlo := cmp_ofAddress_lo hcmp
    rw [lexCmp_of_ne (by rw [hlo]; exact hcmp), lexCmp_of_ne hcmp, hlo]
    exact hiff hcmp

/-- Without a route to the subnet, `find_route` tells the metric of the next key. -/
private theorem seenMetric_eq_some_iff (hn : n ∈ N) (hnone : ∀ g, r.table (g, n, m) = none) :
    r.seenMetric env m (ofNet n).lo = .ok (some x) ↔ r.Follows m n x := by
  have hprobe := probe_lookupKey (m := m) (a := (ofNet n).lo) hA
  have hkeys := (h.multiOk hN).keysIn
  have hbeyond : ∀ {key e}, (key, e) ∈ r.routeEntries →
      (dstCmp (lookupKey m (ofNet n).lo) e.dstKey ≠ .gt ↔ Beyond m n e) := by
    rintro key ⟨m', n', g, y⟩ he
    refine beyond_iff hA hn (hN _ he) fun ⟨hm, hn'⟩ => ?_
    have hsome := (h.table_eq_some_iff hA hN).mpr ⟨key, he⟩
    rw [show m' = m from hm, show n' = n from hn', hnone] at hsome
    contradiction
  have hself : ∀ {key e}, (key, e) ∈ r.routeEntries → dstCmp e.dstKey e.dstKey = .eq := fun he => by
    obtain ⟨s, hs⟩ := h.exists_byDst he
    exact (hA.orderOn_dst.eq_iff (hkeys _ hs) (hkeys _ hs)).mpr rfl
  constructor
  · intro hseen
    by_cases hq : ∃ q s, next dstCmp (lookupKey m (ofNet n).lo) r.byDst env.dstSearch =
        some (q, s) ∧ q.2.1 = m
    · obtain ⟨q, s, hnext, hm⟩ := hq
      obtain ⟨key, e, he, rfl, hfind⟩ := findRoute_of_next env h hnext hm
      rw [seenMetric, hfind] at hseen
      refine ⟨_, he, hm, some.inj (Except.ok.inj hseen),
        (hbeyond he).mp (ne_gt_of_next hnext), fun q hq hb => ?_⟩
      obtain ⟨t, ht⟩ := h.exists_byDst hq
      obtain ⟨f, hf, -, hle⟩ := exists_next h.sorted_byDst hkeys hprobe ht ((hbeyond hq).mpr hb)
      obtain rfl := some.inj (hnext.symm.trans hf)
      rcases hle with heq | hlt
      · rw [← (Prod.mk.inj heq).1, hself he]
        exact Ordering.noConfusion
      · rw [hlt]
        exact Ordering.noConfusion
    · push Not at hq
      rw [seenMetric, findRoute_of_not_next env hq] at hseen
      have := Except.ok.inj hseen
      contradiction
  · rintro ⟨⟨key, e⟩, he, rfl, rfl, hb, hfirst⟩
    obtain ⟨s, hs⟩ := h.exists_byDst he
    obtain ⟨⟨q, s'⟩, hnext, hle, hqe⟩ := exists_next (t := env.dstSearch) h.sorted_byDst hkeys
      hprobe hs ((hbeyond he).mpr hb)
    obtain ⟨key', e', he', rfl⟩ := h.exists_route (mem_of_next hnext)
    -- no key stands before that of `e`
    have heq : e'.dstKey = e.dstKey := by
      rcases hqe with heq | hlt
      · exact (Prod.mk.inj heq).1
      · have hgt := hA.orderOn_dst.swap (hkeys _ (mem_of_next hnext)) (hkeys _ hs)
        rw [hlt] at hgt
        exact absurd hgt (hfirst _ he' ((hbeyond he').mp hle))
    rw [heq] at hnext
    obtain ⟨_, e₁, -, hkey, hfind⟩ := findRoute_of_next env h hnext rfl
    rw [seenMetric, hfind]
    simp only [RouteEntry.dstKey, Prod.mk.injEq] at hkey
    rw [← hkey.2.2]
    rfl

end Seen

section Step

variable (hA : Apart N) (hN : r.NetsIn N) (h : Inv r) (hc : c.destination ∈ N)

include hA hN h hc

private theorem visible_of_same (hsame : r.table c.id = c.metric) : r.visible env c = false := by
  have happly : r.apply env c = .ok (r, .ok c.metric) := setRoute_of_same env hA hN h hc hsame
  simp [visible, happly]

omit hA hN hc in
private theorem seenMetric_ok (m : LocalTypeKey) (a : Address) :
    ∃ o, r.seenMetric env m a = .ok o := by
  obtain ⟨answer, hfind⟩ := findRoute_ok env h m a
  rw [seenMetric, hfind]
  cases answer with
  | ok route => exact ⟨some route.2, rfl⟩
  | error e => exact ⟨none, rfl⟩

omit hA hN h hc in
/-- The next key is that of a route beyond the subnet. -/
private theorem Follows.congr (hx : r.Follows m n x)
    (hmem : ∀ e, Beyond m n e →
      ((∃ key, (key, e) ∈ r.routeEntries) ↔ ∃ key, (key, e) ∈ r'.routeEntries)) :
    r'.Follows m n x := by
  obtain ⟨⟨key, e⟩, he, hm, rfl, hb, hfirst⟩ := hx
  obtain ⟨key', he'⟩ := (hmem e hb).mp ⟨key, he⟩
  refine ⟨_, he', hm, rfl, hb, fun q hq hbq => ?_⟩
  obtain ⟨key₁, hq'⟩ := (hmem q.2 hbq).mpr ⟨q.1, hq⟩
  exact hfirst (key₁, q.2) hq' hbq

omit hc in
/-- The next key is not touched by an update. -/
private theorem follows_iff (hN' : r'.NetsIn N) (h' : Inv r') (htable : r'.table = r.table.set c) :
    r'.Follows c.message c.destination x ↔ r.Follows c.message c.destination x := by
  have hmem : ∀ e, Beyond c.message c.destination e →
      ((∃ key, (key, e) ∈ r'.routeEntries) ↔ ∃ key, (key, e) ∈ r.routeEntries) := by
    rintro ⟨m, n, g, x⟩ hb
    have hid : (g, n, m) ≠ c.id := by
      rintro hid
      simp only [SetRoute.id, Prod.mk.injEq] at hid
      rw [Beyond, hid.2.1, hid.2.2, lexCmp_of_eq (cmp_self _), KeyData.cmp_self] at hb
      contradiction
    rw [← h'.table_eq_some_iff hA hN', ← h.table_eq_some_iff hA hN, htable, Table.set,
      update_of_ne hid]
  exact ⟨fun hx => hx.congr hmem, fun hx => hx.congr fun e hb => (hmem e hb).symm⟩

/-- **Whether an update is visible**, from the routes that are stored. -/
theorem visible_iff (hne : r.table c.id ≠ c.metric) : r.visible env c = true ↔
    ¬ Trails (· ∈ r.others (fun _ => false) c) (r.table c.id) c.metric ∧ ¬ r.Masked c := by
  obtain ⟨r', happly, hinv, hN', htable⟩ := apply_spec env hA hN h hc
  have hvis : r.visible env c = true ↔
      r'.seenMetric env c.message c.probe ≠ r.seenMetric env c.message c.probe := by
    simp [visible, happly]
  -- the routes to the destination before and after the update
  have hwith : ∀ o x, With (· ∈ r.others (fun _ => false) c) o x ↔
      ∃ g, Function.update r.table c.id o (g, c.destination, c.message) = some x := fun o x => by
    rw [← with_others_iff hA hN h _ rfl]
    simp only [true_and]
  have hold : ∀ {x}, IsLeast (With (· ∈ r.others (fun _ => false) c) (r.table c.id)) (some x) →
      r.seenMetric env c.message c.probe = .ok (some x) := fun hx =>
    seenMetric_of_isLeast env hA hN h
      (hx.congr fun y => by rw [hwith, Function.update_eq_self])
  have hnew : ∀ {x}, IsLeast (With (· ∈ r.others (fun _ => false) c) c.metric) (some x) →
      r'.seenMetric env c.message c.probe = .ok (some x) := fun hx =>
    seenMetric_of_isLeast env hA hN' hinv (hx.congr fun y => by rw [hwith, htable, Table.set])
  rw [hvis]
  by_cases hothers : r.others (fun _ => false) c = []
  · rw [hothers] at hold hnew hwith
    have hone : ∀ a : RouteMetric, IsLeast (With (· ∈ []) (some a)) (some a) := fun a =>
      ⟨.inr rfl, fun y hy => hy.elim (absurd · not_mem_nil) fun heq =>
        some.inj heq ▸ Std.le_refl a⟩
    have hgone : ∀ g, Function.update r.table c.id none (g, c.destination, c.message) = none :=
      fun g => eq_none_iff_forall_ne_some.mpr fun x hx => by
        simpa [With] using (hwith none x).mpr ⟨g, hx⟩
    have htrails : ¬ Trails (· ∈ r.others (fun _ => false) c) (r.table c.id) c.metric := by
      rw [hothers]
      rintro ⟨y, hy, -⟩
      exact absurd hy not_mem_nil
    rw [and_iff_right htrails, Masked, and_iff_right hothers]
    cases ho : r.table c.id with
    | none =>
      cases hx : c.metric with
      | none => exact absurd (ho.trans hx.symm) hne
      | some x =>
        have hgone : ∀ g, r.table (g, c.destination, c.message) = none := fun g => by
          rw [← hgone g, ← ho, Function.update_eq_self]
        rw [hx] at hnew
        rw [hnew (hone x), ne_comm, Ne, SetRoute.probe, seenMetric_eq_some_iff env hA hN h hc hgone]
        simp
    | some a =>
      cases hx : c.metric with
      | none =>
        have hgone : ∀ g, r'.table (g, c.destination, c.message) = none := fun g => by
          rw [htable, Table.set, hx, hgone]
        rw [ho] at hold
        rw [hold (hone a), Ne, SetRoute.probe,
          seenMetric_eq_some_iff env hA hN' hinv hc hgone, follows_iff hA hN h hN' hinv htable]
        simp
      | some x =>
        rw [ho] at hold hne
        rw [hx] at hnew hne
        rw [hold (hone a), hnew (hone x)]
        simpa [eq_comm] using hne
  · have hleast : ∀ o, ∃ v, IsLeast (With (· ∈ r.others (fun _ => false) c) o) (some v) := by
      intro o
      have hmin := isLeast_with_min? (r.others (fun _ => false) c) o
      obtain ⟨v, hv⟩ := ne_none_iff_exists'.mp fun hnone =>
        hothers (append_eq_nil_iff.mp (List.min?_eq_none_iff.mp hnone)).2
      exact ⟨v, hv ▸ hmin⟩
    obtain ⟨v, hv⟩ := hleast (r.table c.id)
    obtain ⟨v', hv'⟩ := hleast c.metric
    have hmasked : ¬ r.Masked c := fun hm => hothers hm.1
    rw [and_iff_left hmasked, hold hv, hnew hv', ← isLeast_replace_iff hv hne, not_iff_not]
    constructor
    · intro heq
      rwa [← Except.ok.inj heq]
    · exact fun hleast => congrArg _ (hv'.unique hleast)

variable (own) in
/-- **One update**: what is written. -/
theorem handleSetRoute_spec : ∃ r',
    handleSetRoute env own r c =
      .ok (r', if r.visible env c = true ∧ c.via ≠ some own then [c] else []) ∧
    Inv r' ∧ r'.NetsIn N ∧ r'.table = r.table.set c := by
  obtain ⟨r', happly, hinv, hN', htable⟩ := apply_spec env hA hN h hc
  obtain ⟨before, hbefore⟩ := seenMetric_ok env h c.message c.probe
  obtain ⟨after, hafter⟩ := seenMetric_ok env hinv c.message c.probe
  refine ⟨r', ?_, hinv, hN', htable⟩
  have hvis : r.visible env c = true ↔ after ≠ before := by
    simp [visible, happly, hbefore, hafter]
  simp only [handleSetRoute, hbefore, happly, hafter, Except.mapError, bind, Except.bind, hvis]
  rfl

end Step

/-! ### What the peer knows -/

private theorem lastWritten_append_singleton (written : List SetRoute) (m : LocalTypeKey)
    (n : NetAddress) :
    lastWritten (written ++ [c]) m n =
      if c.message = m ∧ c.destination = n then c.metric else lastWritten written m n := by
  rw [lastWritten, reverse_append, reverse_singleton, singleton_append, List.find?_cons]
  by_cases hmn : c.message = m ∧ c.destination = n
  · simp [hmn]
  · rw [if_neg hmn, decide_eq_false hmn]
    rfl

/-- The least metric stays when the routes that the peer may be told of do. -/
private theorem peerMetric_congr (hA : Apart N) (hN : r.NetsIn N) (h : Inv r) (hN' : r'.NetsIn N)
    (h' : Inv r') (hsame : ∀ g, g ≠ some own → r'.table (g, n, m) = r.table (g, n, m)) :
    peerMetric own r m n = peerMetric own r' m n := by
  refine (eq_peerMetric_iff hA hN' h').mpr ((isLeast_peerMetric own hA hN h).congr fun x => ?_)
  refine exists_congr fun g => and_congr_right fun hg => ?_
  rw [hsame g hg]

section Peer

variable (hA : Apart N) (hN : r.NetsIn N) (h : Inv r) (hN' : r'.NetsIn N) (h' : Inv r')
  (htable : r'.table = r.table.set c)

include hA hN h hN' h' htable

/-- The new metric is what the peer is meant to know. -/
private theorem metric_eq_peerMetric_iff (hvia : c.via ≠ some own) :
    c.metric = peerMetric own r' c.message c.destination ↔
      Leads (· ∈ r.rivals own c) c.metric := by
  rw [eq_peerMetric_iff hA hN' h', htable, ← isLeast_with_self_iff]
  have hwith : (fun x => ∃ g, g ≠ some own ∧ r.table.set c (g, c.destination, c.message) = some x) =
      With (· ∈ r.rivals own c) c.metric :=
    funext fun x => propext (with_rivals_iff hA hN h hvia)
  rw [hwith]

/-- What the peer is meant to know stays. -/
private theorem peerMetric_eq_peerMetric_iff (hvia : c.via ≠ some own)
    (hne : r.table c.id ≠ c.metric) :
    peerMetric own r c.message c.destination = peerMetric own r' c.message c.destination ↔
      Trails (· ∈ r.rivals own c) (r.table c.id) c.metric := by
  have hwith : ∀ o, (fun x => ∃ g, g ≠ some own ∧
      Function.update r.table c.id o (g, c.destination, c.message) = some x) =
      With (· ∈ r.rivals own c) o := fun o =>
    funext fun x => propext (with_rivals_iff hA hN h hvia)
  have hleast := isLeast_peerMetric own hA hN h (m := c.message) (n := c.destination)
  rw [← Function.update_eq_self c.id r.table, hwith] at hleast
  rw [eq_peerMetric_iff hA hN' h', htable, Table.set, hwith, isLeast_replace_iff hleast hne]

/-- Routes that are not about the update stay. -/
private theorem peerMetric_of_ne (hne : ∀ g, g ≠ some own → (g, n, m) ≠ c.id) :
    peerMetric own r m n = peerMetric own r' m n := by
  refine peerMetric_congr hA hN h hN' h' fun g hg => ?_
  rw [htable, Table.set, update_of_ne (hne g hg)]

omit hA hN h hN' h' htable in
/-- What is written is about the message and the destination of the update. -/
private theorem lastWritten_append_visible (hvia : c.via ≠ some own)
    (hpeer : ∀ m n, lastWritten written m n = peerMetric own r m n) :
    lastWritten (written ++ if r.visible env c = true ∧ c.via ≠ some own then [c] else []) m n =
      if r.visible env c = true ∧ c.message = m ∧ c.destination = n then c.metric
      else peerMetric own r m n := by
  cases r.visible env c with
  | true => simp [hvia, lastWritten_append_singleton, hpeer]
  | false => simp [hpeer]

/-- Only what the peer is told of the message and the destination of the update may go wrong. -/
private theorem forall_lastWritten_iff (hvia : c.via ≠ some own)
    (hpeer : ∀ m n, lastWritten written m n = peerMetric own r m n) :
    (∀ m n, lastWritten (written ++
        if r.visible env c = true ∧ c.via ≠ some own then [c] else []) m n =
      peerMetric own r' m n) ↔
      (if r.visible env c = true then c.metric else peerMetric own r c.message c.destination) =
        peerMetric own r' c.message c.destination := by
  simp only [lastWritten_append_visible env hvia hpeer]
  refine ⟨fun hall => ?_, fun heq m n => ?_⟩
  · simpa using hall c.message c.destination
  · by_cases hmn : c.message = m ∧ c.destination = n
    · obtain ⟨rfl, rfl⟩ := hmn
      simpa using heq
    · rw [if_neg fun hw => hmn hw.2]
      refine peerMetric_of_ne hA hN h hN' h' htable fun g _ hid => hmn ?_
      simp only [SetRoute.id, Prod.mk.injEq] at hid
      exact ⟨hid.2.2.symm, hid.2.1.symm⟩

/-- **The peer is right after an update** if and only if the update meets the condition. -/
theorem lastWritten_step_iff (hc : c.destination ∈ N)
    (hpeer : ∀ m n, lastWritten written m n = peerMetric own r m n) :
    (∀ m n, lastWritten (written ++
        if r.visible env c = true ∧ c.via ≠ some own then [c] else []) m n =
      peerMetric own r' m n) ↔ Announces own r c := by
  by_cases hvia : c.via = some own
  · refine iff_of_true (fun m n => ?_) (.inl hvia)
    rw [if_neg (fun hw => hw.2 hvia), append_nil, hpeer]
    refine peerMetric_of_ne hA hN h hN' h' htable fun g hg hid => hg ?_
    exact (congrArg Prod.fst hid).trans hvia
  by_cases hsame : r.table c.id = c.metric
  · refine iff_of_true (fun m n => ?_) (.inr (.inl hsame))
    have hvis := visible_of_same env hA hN h hc hsame
    rw [if_neg (fun hw => Bool.false_ne_true (hvis.symm.trans hw.1)), append_nil, hpeer]
    refine peerMetric_congr hA hN h hN' h' fun g _ => ?_
    rw [htable, Table.set, ← hsame, update_eq_self]
  rw [forall_lastWritten_iff env hA hN h hN' h' htable hvia hpeer, Announces, or_iff_right hvia,
    or_iff_right hsame]
  have hvis := visible_iff env hA hN h hc hsame
  -- a rival that is not worse than both metrics hides the update
  have hrival : Trails (· ∈ r.rivals own c) (r.table c.id) c.metric → r.visible env c = false := by
    rintro ⟨y, hy, hle⟩
    refine Bool.eq_false_iff.mpr fun htrue => (hvis.mp htrue).1 ⟨y, ?_, hle⟩
    rw [rivals, others, mem_metrics_iff hA hN h] at hy
    obtain ⟨g, hg, hx⟩ := hy
    refine (mem_metrics_iff hA hN h).mpr ⟨g, ?_, hx⟩
    rw [decide_eq_false_iff_not, not_or] at hg ⊢
    exact ⟨Bool.false_ne_true, hg.2⟩
  cases hv : r.visible env c with
  | true =>
    rw [if_pos rfl, metric_eq_peerMetric_iff hA hN h hN' h' htable hvia, ← hvis, hv]
    simp only [and_true]
    exact (or_iff_right fun ht => Bool.false_ne_true ((hrival ht).symm.trans hv)).symm
  | false =>
    rw [if_neg Bool.false_ne_true, peerMetric_eq_peerMetric_iff hA hN h hN' h' htable hvia hsame,
      ← hvis, hv]
    simp only [Bool.false_eq_true, and_false, or_false]

end Peer

end RouteRegistry

/-! ### Lists of updates -/

section Lists

open RouteRegistry

variable (env : Env) (own : Address) {N : Set NetAddress} {calls : List SetRoute}

/-- The run lemma: the updates are handled without an error. -/
theorem handleSetRoutes_spec {r : RouteRegistry} (hA : Apart N) (hN : r.NetsIn N) (h : Inv r)
    (hcalls : ∀ c ∈ calls, c.destination ∈ N) :
    ∃ r' written, handleSetRoutes env own r calls = .ok (r', written) ∧ Inv r' ∧ r'.NetsIn N ∧
      r'.table = (r.table.setRoutes calls).1 := by
  induction calls generalizing r with
  | nil => exact ⟨r, [], rfl, h, hN, rfl⟩
  | cons c cs ih =>
    obtain ⟨r₁, hr₁, hinv, hN₁, htable⟩ := handleSetRoute_spec env own hA hN h
      (hcalls c (mem_cons_self ..))
    obtain ⟨r₂, written, hr₂, hinv₂, hN₂, htable₂⟩ :=
      ih hN₁ hinv fun c' hc' => hcalls c' (mem_cons_of_mem _ hc')
    rw [htable] at htable₂
    refine ⟨r₂, (if r.visible env c = true ∧ c.via ≠ some own then [c] else []) ++ written, ?_,
      hinv₂, hN₂, htable₂⟩
    simp only [handleSetRoutes, hr₁, bind, Except.bind, hr₂]
    rfl

variable {env own} {c : SetRoute} in
/-- One more update. -/
private theorem handleSetRoutes_append_singleton {r r₁ r₂ : RouteRegistry} {w w' : List SetRoute}
    (h : handleSetRoutes env own r calls = .ok (r₁, w))
    (hc : handleSetRoute env own r₁ c = .ok (r₂, w')) :
    handleSetRoutes env own r (calls ++ [c]) = .ok (r₂, w ++ w') := by
  induction calls generalizing r w with
  | nil =>
    obtain ⟨rfl, rfl⟩ := eq_of_ok_mk h
    simp only [nil_append, handleSetRoutes, hc, bind, Except.bind, pure, Except.pure, append_nil]
  | cons c₀ cs ih =>
    obtain ⟨⟨r₀, w₀⟩, hc₀, hrest⟩ := exists_of_bind_eq_ok h
    obtain ⟨⟨r₁', w₁⟩, hcs, hlast⟩ := exists_of_bind_eq_ok hrest
    obtain ⟨rfl, rfl⟩ := eq_of_ok_mk hlast
    simp only [cons_append, handleSetRoutes, hc₀, bind, Except.bind, ih hcs, pure,
      Except.pure, append_assoc]

/-- What the peer knows after the updates is right. -/
def PeerKnows (env : Env) (own : Address) (calls : List SetRoute) : Prop :=
  ∃ r written, handleSetRoutes env own .empty calls = .ok (r, written) ∧
    ∀ m n, lastWritten written m n = peerMetric own r m n

/-- The update meets the condition after the ones before. -/
def AnnouncesAfter (env : Env) (own : Address) (calls : List SetRoute) (c : SetRoute) : Prop :=
  ∃ r written, handleSetRoutes env own .empty calls = .ok (r, written) ∧ Announces own r c

/-- One more update. -/
private theorem peerKnows_append_singleton_iff (hA : Apart N)
    (hcalls : ∀ c ∈ calls, c.destination ∈ N) (hc : c.destination ∈ N)
    (hknows : PeerKnows env own calls) :
    PeerKnows env own (calls ++ [c]) ↔ AnnouncesAfter env own calls c := by
  obtain ⟨r, written, hrun, hpeer⟩ := hknows
  have hN : NetsIn .empty N := fun p hp => absurd hp not_mem_nil
  obtain ⟨r₁, written₁, hrun₁, hinv, hN₁, -⟩ := handleSetRoutes_spec env own hA hN inv_empty hcalls
  obtain ⟨rfl, rfl⟩ : r₁ = r ∧ written₁ = written := by
    simpa using hrun₁.symm.trans hrun
  obtain ⟨r₂, hr₂, hinv₂, hN₂, htable⟩ := handleSetRoute_spec env own hA hN₁ hinv hc
  have hstep := lastWritten_step_iff env hA hN₁ hinv hN₂ hinv₂ htable hc hpeer
  have hrun₂ := handleSetRoutes_append_singleton hrun hr₂
  constructor
  · rintro ⟨r', written', hrun', hpeer'⟩
    obtain ⟨rfl, rfl⟩ : r₂ = r' ∧ _ = written' := by
      simpa using hrun₂.symm.trans hrun'
    exact ⟨r₁, written₁, hrun, hstep.mp hpeer'⟩
  · rintro ⟨r', written', hrun', hann⟩
    obtain ⟨rfl, rfl⟩ : r₁ = r' ∧ written₁ = written' := by
      simpa using hrun.symm.trans hrun'
    exact ⟨r₂, _, hrun₂, hstep.mpr hann⟩

/-- **What a connection announces.** For canonical destinations that are pairwise equal or
disjoint, the metrics last written are the least metrics of the routes that do not go through the
connection after every prefix of the updates, if and only if every update meets the condition. -/
theorem lastWritten_eq_iff (env : Env) (own : Address) (calls : List SetRoute)
    (hcanon : ∀ c ∈ calls, c.destination.IsAligned)
    (hdisj : ∀ c ∈ calls, ∀ c' ∈ calls,
      c.destination = c'.destination ∨ c.destination.Disjoint c'.destination) :
    (∀ pre, pre <+: calls → PeerKnows env own pre) ↔
      ∀ pre c, pre ++ [c] <+: calls → AnnouncesAfter env own pre c := by
  have hA := apart_destinations hcanon hdisj
  have hcalls : ∀ c ∈ calls, c.destination ∈ {n | ∃ c ∈ calls, c.destination = n} :=
    fun c hc => ⟨c, hc, rfl⟩
  revert hcalls hA
  generalize {n | ∃ c ∈ calls, c.destination = n} = N
  intro hA hcalls
  clear hcanon hdisj
  induction calls using List.reverseRecOn with
  | nil =>
    refine iff_of_true (fun pre hpre => ?_) fun pre c hpre => ?_
    · rw [prefix_nil.mp hpre]
      exact ⟨.empty, [], rfl, fun m n => rfl⟩
    · exact absurd (prefix_nil.mp hpre) (by simp)
  | append_singleton calls c ih =>
    have hsub : ∀ c' ∈ calls, c'.destination ∈ N := fun c' hc' =>
      hcalls c' (mem_append_left _ hc')
    have hstep := peerKnows_append_singleton_iff env own hA hsub
      (hcalls c (by simp))
    constructor
    · intro hknows pre c' hpre
      have hknows' : ∀ pre, pre <+: calls → PeerKnows env own pre := fun pre hpre =>
        hknows pre (hpre.trans (prefix_append _ _))
      rcases prefix_concat_iff.mp hpre with heq | hpre
      · obtain ⟨rfl, hc'⟩ := append_inj' heq rfl
        obtain rfl : c' = c := by simpa using hc'
        exact (hstep (hknows' pre (prefix_refl _))).mp (hknows _ (prefix_refl _))
      · exact (ih hsub).mp hknows' pre c' hpre
    · intro hann pre hpre
      have hknows' : ∀ pre, pre <+: calls → PeerKnows env own pre :=
        (ih hsub).mpr fun pre c' hpre => hann pre c' (hpre.trans (prefix_append _ _))
      rcases prefix_concat_iff.mp hpre with rfl | hpre
      · exact (hstep (hknows' calls (prefix_refl _))).mpr (hann calls c (prefix_refl _))
      · exact hknows' pre hpre

/-- Two gateways and a route through the connection: the worse gateway comes and goes, and then the
other one gets worse. -/
def twoGateways : List SetRoute :=
  [⟨sampleKey, netF1, some ⟨0xa101#64⟩, some 1⟩, ⟨sampleKey, netF1, some ⟨0xa102#64⟩, some 2⟩,
    ⟨sampleKey, netF1, some ⟨0xa100#64⟩, some 5⟩, ⟨sampleKey, netF1, some ⟨0xa102#64⟩, none⟩,
    ⟨sampleKey, netF1, some ⟨0xa101#64⟩, some 3⟩]

/-- What the peer knows after these updates. -/
theorem lastWritten_eq_iff_two_gateways : PeerKnows plainEnv ⟨0xa100#64⟩ twoGateways := by
  refine (lastWritten_eq_iff plainEnv ⟨0xa100#64⟩ _ (by decide) ?_).mpr ?_ _ (prefix_refl _)
  · have hnet : ∀ c ∈ twoGateways, c.destination = netF1 := by decide
    exact fun c hc c' hc' => .inl ((hnet c hc).trans (hnet c' hc').symm)
  · rintro pre c ⟨rest, hpre⟩
    have hpre' : pre = twoGateways.take pre.length := by simp [← hpre]
    have hc : twoGateways[pre.length]? = some c := by simp [← hpre]
    have hlt : pre.length < 5 := (List.getElem?_eq_some_iff.mp hc).1
    generalize pre.length = i at hpre' hc hlt
    subst hpre'
    obtain rfl | rfl | rfl | rfl | rfl : i = 0 ∨ i = 1 ∨ i = 2 ∨ i = 3 ∨ i = 4 := by omega
    all_goals
      obtain rfl := some.inj hc
      exact ⟨_, _, rfl, by decide⟩

/-- The best of two routes is withdrawn: the peer is told that there is no route. -/
theorem withdrawal_hides_second_route :
    netF1.IsAligned ∧
    ((handleSetRoutes plainEnv ⟨0xa100#64⟩ .empty
      [⟨sampleKey, netF1, some ⟨0xa101#64⟩, some 1⟩, ⟨sampleKey, netF1, some ⟨0xa102#64⟩, some 2⟩,
        ⟨sampleKey, netF1, some ⟨0xa101#64⟩, none⟩]).toOption.map fun (r, written) =>
          (lastWritten written sampleKey netF1, peerMetric ⟨0xa100#64⟩ r sampleKey netF1)) =
      some (none, some 2) := by
  decide

end Lists

end Mm1
