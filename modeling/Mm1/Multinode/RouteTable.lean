import Mathlib.Data.List.Nodup
import Mm1.Multinode.RouteRegistry

/-!
# The registry as a table

What a `RouteRegistry` is for: a finite map from (gateway, destination, message) to metric
(`RouteRegistry.table`). As long as the destinations do not overlap, `set_route` updates that map
and nothing else can be told from the registry.

* `Inv`: the three containers agree;
* `setRoute_spec`: one call;
* `findRoute_of_next`, `exists_next_of_mem`, `containsNet_iff`: the lookups.
-/

namespace Mm1

open OrderedMap Option List AddressRange RouteEntry

/-! ### Destinations that do not overlap -/

namespace NetAddress

/-- The comparison calls the ranges of two subnets equal. -/
def Overlaps (n n' : NetAddress) : Prop := AddressRange.cmp (.ofNet n) (.ofNet n') = .eq

instance (n n' : NetAddress) : Decidable (n.Overlaps n') := inferInstanceAs (Decidable (_ = _))

private theorem Overlaps.symm {n n' : NetAddress} (h : n.Overlaps n') : n'.Overlaps n :=
  cmp_comm.mp h

/-- The subnet is read back from its range. -/
def ReadsBack (n : NetAddress) : Prop := ofRange (.ofNet n) = n

instance (n : NetAddress) : Decidable n.ReadsBack := inferInstanceAs (Decidable (_ = _))

end NetAddress

/-- Subnets that are told apart by their ranges, and that do not overlap. -/
structure Apart (N : Set NetAddress) : Prop where
  readsBack : ∀ n ∈ N, n.ReadsBack
  eq_of_overlaps : ∀ n ∈ N, ∀ n' ∈ N, n.Overlaps n' → n = n'

namespace Apart

variable {N : Set NetAddress}

/-- The keys of `by_dst` for destinations of `N`. -/
def dstKeys (N : Set NetAddress) : Set DstKey := (ofNet '' N) ×ˢ Set.univ

/-- The keys of `by_gw` for destinations of `N`. -/
def gwKeys (N : Set NetAddress) : Set GwKey := Set.univ ×ˢ (ofNet '' N) ×ˢ Set.univ

theorem orderOn (h : Apart N) : OrderOn AddressRange.cmp (ofNet '' N) := by
  refine orderOn_cmp ?_
  rintro _ ⟨n, hn, rfl⟩ _ ⟨n', hn', rfl⟩ heq
  rw [h.eq_of_overlaps n hn n' hn' heq]

theorem orderOn_dst (h : Apart N) : OrderOn dstCmp (dstKeys N) := by
  rw [dstKeys, ← Set.univ_prod_univ]
  exact h.orderOn.lex (KeyData.orderOn_cmp.lex orderOn_compare)

theorem orderOn_gw (h : Apart N) : OrderOn gwCmp (gwKeys N) :=
  orderOn_gatewayCmp.lex (h.orderOn.lex KeyData.orderOn_cmp)

theorem mono {N' : Set NetAddress} (h : Apart N) (hsub : N' ⊆ N) : Apart N' where
  readsBack n hn := h.readsBack n (hsub hn)
  eq_of_overlaps n hn n' hn' := h.eq_of_overlaps n (hsub hn) n' (hsub hn')

/-- A subnet that overlaps no other one can be added. -/
theorem insert (h : Apart N) {n : NetAddress} (hn : n.ReadsBack)
    (hover : ∀ n' ∈ N, n.Overlaps n' → n = n') : Apart (Insert.insert n N) where
  readsBack := by
    rintro n' (rfl | hn')
    · exact hn
    · exact h.readsBack n' hn'
  eq_of_overlaps := by
    rintro n₁ (rfl | hn₁) n₂ (rfl | hn₂) h₁₂
    · rfl
    · exact hover n₂ hn₂ h₁₂
    · exact (hover n₁ hn₁ h₁₂.symm).symm
    · exact h.eq_of_overlaps n₁ hn₁ n₂ hn₂ h₁₂

theorem ofNet_inj (h : Apart N) {n n' : NetAddress} (hn : n ∈ N) (hn' : n' ∈ N)
    (heq : ofNet n = .ofNet n') : n = n' := by
  rw [← h.readsBack n hn, heq, h.readsBack n' hn']

end Apart

/-! ### The invariant -/

abbrev RouteId := Option Address × NetAddress × LocalTypeKey

/-- The finite map that the registry is meant to be. -/
abbrev Table := RouteId → Option RouteMetric

/-- What a route is known by. -/
def RouteEntry.id (e : RouteEntry) : RouteId := (e.gw, e.dstNet, e.message)

/-- A key of `by_gw` tells the route. -/
private theorem Apart.id_of_gwKey {N : Set NetAddress} (h : Apart N) {e e' : RouteEntry}
    (he : e.dstNet ∈ N) (he' : e'.dstNet ∈ N) (heq : e.gwKey = e'.gwKey) : e.id = e'.id := by
  simp only [gwKey, Prod.mk.injEq] at heq
  rw [RouteEntry.id, heq.1, h.ofNet_inj he he' heq.2.1, heq.2.2, RouteEntry.id]

namespace RouteRegistry

variable (env : Env) {r r' : RouteRegistry} {N : Set NetAddress} {e e' : RouteEntry}
  {key key' : RouteKey} {a : Address} {q : DstKey} {s : List RouteKey}

/-- **The three containers agree.** -/
structure Inv (r : RouteRegistry) : Prop where
  nodup : (r.routeEntries.map Prod.fst).Nodup
  sorted_byGw : Sorted gwCmp r.byGw
  mem_byGw : ∀ q key, (q, key) ∈ r.byGw ↔ ∃ e, (key, e) ∈ r.routeEntries ∧ e.gwKey = q
  sorted_byDst : Sorted dstCmp r.byDst
  byDst_ne_nil : ∀ p ∈ r.byDst, p.2 ≠ []
  holds_byDst : ∀ q key, Holds r.byDst q key ↔ ∃ e, (key, e) ∈ r.routeEntries ∧ e.dstKey = q

/-- The destinations of the routes lie in `N`. -/
def NetsIn (r : RouteRegistry) (N : Set NetAddress) : Prop := ∀ p ∈ r.routeEntries, p.2.dstNet ∈ N

/-- The registry as a map. -/
def table (r : RouteRegistry) : Table := fun id =>
  (r.routeEntries.find? fun p => p.2.id = id).map fun p => p.2.metric

theorem inv_empty : Inv empty where
  nodup := nodup_nil
  sorted_byGw := List.Pairwise.nil
  mem_byGw := by simp [empty]
  sorted_byDst := List.Pairwise.nil
  byDst_ne_nil := by simp [empty]
  holds_byDst := by simp [empty, Holds]

namespace Inv

theorem keysIn_byGw (h : Inv r) (hN : r.NetsIn N) : KeysIn (Apart.gwKeys N) r.byGw := by
  rintro ⟨q, key⟩ hp
  obtain ⟨e, he, rfl⟩ := (h.mem_byGw q key).mp hp
  exact ⟨trivial, ⟨e.dstNet, hN _ he, rfl⟩, trivial⟩

/-- `by_dst` is well formed. -/
theorem multiOk (h : Inv r) (hN : r.NetsIn N) : MultiOk dstCmp (Apart.dstKeys N) r.byDst where
  sorted := h.sorted_byDst
  keysIn := by
    rintro ⟨q, s⟩ hp
    obtain ⟨key, hkey⟩ := exists_mem_of_ne_nil s (h.byDst_ne_nil _ hp)
    obtain ⟨e, he, rfl⟩ := (h.holds_byDst q key).mp ⟨s, hp, hkey⟩
    exact ⟨⟨e.dstNet, hN _ he, rfl⟩, trivial⟩
  ne_nil := h.byDst_ne_nil

/-- A key of the slot map has one route. -/
private theorem entry_unique (h : Inv r) (he : (key, e) ∈ r.routeEntries)
    (he' : (key, e') ∈ r.routeEntries) : e = e' := by
  have := inj_on_of_nodup_map h.nodup he he' rfl
  exact congrArg Prod.snd this

/-- A route has one key in the slot map. -/
theorem key_unique (h : Inv r) (hA : Apart N) (hN : r.NetsIn N)
    (he : (key, e) ∈ r.routeEntries) (he' : (key', e') ∈ r.routeEntries) (hid : e.id = e'.id) :
    key = key' := by
  have hgw : e.gwKey = e'.gwKey := by
    obtain ⟨m, n, g, x⟩ := e
    obtain ⟨m', n', g', x'⟩ := e'
    simp only [RouteEntry.id, Prod.mk.injEq] at hid
    obtain ⟨rfl, rfl, rfl⟩ := hid
    rfl
  have hmem := (h.mem_byGw _ key).mpr ⟨e, he, rfl⟩
  have hmem' := (h.mem_byGw _ key').mpr ⟨e', he', hgw.symm⟩
  have hentry : ∀ {k}, (e.gwKey, k) ∈ r.byGw → entry gwCmp e.gwKey r.byGw = some (e.gwKey, k) :=
    fun hk => (entry_eq_some_iff_mem h.sorted_byGw (h.keysIn_byGw hN) hA.orderOn_gw
      (h.keysIn_byGw hN _ hk)).mpr ⟨hk, rfl⟩
  exact congrArg Prod.snd (some.inj ((hentry hmem).symm.trans (hentry hmem')))

/-- A stored key is found. -/
private theorem index_eq (h : Inv r) (he : (key, e) ∈ r.routeEntries) : r.index key = .ok e := by
  rw [index]
  cases hf : r.routeEntries.find? (·.1 = key) with
  | none => exact absurd (decide_eq_true rfl) (List.find?_eq_none.mp hf _ he)
  | some p =>
    obtain ⟨k, f⟩ := p
    obtain rfl : k = key := by simpa using List.find?_some hf
    rw [h.entry_unique he (mem_of_find?_eq_some hf)]

/-- The key under which a stored route is found in `P`, an index by `f`. -/
private theorem exists_iff (h : Inv r) (he : (key, e) ∈ r.routeEntries) {K : Type}
    (f : RouteEntry → K) {q : K} : (∃ e', (key, e') ∈ r.routeEntries ∧ f e' = q) ↔ f e = q := by
  constructor
  · rintro ⟨e', he', rfl⟩
    rw [h.entry_unique he he']
  · rintro rfl
    exact ⟨e, he, rfl⟩

/-- What the table says. -/
theorem table_eq_some_iff (h : Inv r) (hA : Apart N) (hN : r.NetsIn N) {x : RouteMetric}
    {g : Option Address} {n : NetAddress} {m : LocalTypeKey} :
    r.table (g, n, m) = some x ↔ ∃ key, (key, RouteEntry.mk m n g x) ∈ r.routeEntries := by
  rw [table, map_eq_some_iff]
  constructor
  · rintro ⟨⟨key, e⟩, hf, rfl⟩
    have hid : e.id = (g, n, m) := by simpa using List.find?_some hf
    obtain ⟨m', n', g', x⟩ := e
    simp only [RouteEntry.id, Prod.mk.injEq] at hid
    obtain ⟨rfl, rfl, rfl⟩ := hid
    exact ⟨key, mem_of_find?_eq_some hf⟩
  · rintro ⟨key, hmem⟩
    cases hf : r.routeEntries.find? fun p => p.2.id = (g, n, m) with
    | none => exact absurd (decide_eq_true rfl) (List.find?_eq_none.mp hf _ hmem)
    | some p =>
      obtain ⟨key', e⟩ := p
      have hid : e.id = (g, n, m) := by simpa using List.find?_some hf
      have hmem' := mem_of_find?_eq_some hf
      obtain rfl : key' = key := h.key_unique hA hN hmem' hmem hid
      refine ⟨_, rfl, ?_⟩
      rw [h.entry_unique hmem' hmem]

end Inv

/-! ### What a call does to the slot map -/

/-- The slot `key` gets the value `o`, and the others keep theirs. -/
def Puts (r : RouteRegistry) (key : RouteKey) (o : Option RouteEntry) (r' : RouteRegistry) :
    Prop :=
  ∀ k f, (k, f) ∈ r'.routeEntries ↔ k = key ∧ o = some f ∨ k ≠ key ∧ (k, f) ∈ r.routeEntries

namespace Puts

variable {o : Option RouteEntry}

private theorem exists_iff (h : Puts r key o r') {k : RouteKey} {P : RouteEntry → Prop} :
    (∃ f, (k, f) ∈ r'.routeEntries ∧ P f) ↔
      k = key ∧ (∃ f, o = some f ∧ P f) ∨ k ≠ key ∧ ∃ f, (k, f) ∈ r.routeEntries ∧ P f := by
  simp only [h k]
  constructor
  · rintro ⟨f, ⟨hk, ho⟩ | ⟨hk, hmem⟩, hP⟩
    · exact .inl ⟨hk, f, ho, hP⟩
    · exact .inr ⟨hk, f, hmem, hP⟩
  · rintro (⟨hk, f, ho, hP⟩ | ⟨hk, f, hmem, hP⟩)
    · exact ⟨f, .inl ⟨hk, ho⟩, hP⟩
    · exact ⟨f, .inr ⟨hk, hmem⟩, hP⟩

private theorem netsIn (h : Puts r key o r') (hN : r.NetsIn N) (ho : ∀ f ∈ o, f.dstNet ∈ N) :
    r'.NetsIn N := by
  rintro ⟨k, f⟩ hmem
  rcases (h k f).mp hmem with ⟨-, hf⟩ | ⟨-, hf⟩
  · exact ho f hf
  · exact hN _ hf

/-- **The table after the call**, when the slot is the one of the route `(g, n, m)`. -/
theorem table_eq {g : Option Address} {n : NetAddress} {m : LocalTypeKey}
    {x : Option RouteMetric} (h : Puts r key (x.map (RouteEntry.mk m n g)) r') (hA : Apart N)
    (hr : Inv r) (hr' : Inv r') (hN : r.NetsIn N) (hN' : r'.NetsIn N)
    (hslot : ∀ k f, (k, f) ∈ r.routeEntries → (k = key ↔ f.id = (g, n, m))) :
    r'.table = Function.update r.table (g, n, m) x := by
  funext ⟨g', n', m'⟩
  refine Option.ext fun y => ?_
  rw [hr'.table_eq_some_iff hA hN']
  by_cases hid : (g', n', m') = (g, n, m)
  · obtain ⟨rfl, rfl, rfl⟩ : g' = g ∧ n' = n ∧ m' = m := by simpa using hid
    rw [Function.update_self]
    constructor
    · rintro ⟨k, hk⟩
      rcases (h k _).mp hk with ⟨-, hf⟩ | ⟨hne, hf⟩
      · obtain ⟨z, hz, heq⟩ := map_eq_some_iff.mp hf
        rw [RouteEntry.mk.injEq] at heq
        rw [hz, heq.2.2.2]
      · exact absurd ((hslot k _ hf).mpr rfl) hne
    · rintro rfl
      exact ⟨key, (h key _).mpr (.inl ⟨rfl, rfl⟩)⟩
  · rw [Function.update_of_ne hid, hr.table_eq_some_iff hA hN]
    constructor
    · rintro ⟨k, hk⟩
      rcases (h k _).mp hk with ⟨-, hf⟩ | ⟨-, hf⟩
      · obtain ⟨z, -, heq⟩ := map_eq_some_iff.mp hf
        rw [RouteEntry.mk.injEq] at heq
        exact absurd (by rw [heq.1, heq.2.1, heq.2.2.1]) hid
      · exact ⟨k, hf⟩
    · rintro ⟨k, hk⟩
      exact ⟨k, (h k _).mpr (.inr ⟨fun heq => hid ((hslot k _ hk).mp heq), hk⟩)⟩

/-- The containers agree after the call, if the indexes have followed. -/
private theorem inv (hp : Puts r key o r') (h : Inv r) {S : Set DstKey}
    (hnodup : (r'.routeEntries.map Prod.fst).Nodup) (hgw : Sorted gwCmp r'.byGw)
    (hmem : ∀ q k, (q, k) ∈ r'.byGw ↔
      k = key ∧ (∃ f, o = some f ∧ f.gwKey = q) ∨ k ≠ key ∧ (q, k) ∈ r.byGw)
    (hdst : MultiOk dstCmp S r'.byDst)
    (hholds : ∀ q k, Holds r'.byDst q k ↔
      k = key ∧ (∃ f, o = some f ∧ f.dstKey = q) ∨ k ≠ key ∧ Holds r.byDst q k) : Inv r' where
  nodup := hnodup
  sorted_byGw := hgw
  mem_byGw q k := by rw [hmem, hp.exists_iff, h.mem_byGw]
  sorted_byDst := hdst.sorted
  byDst_ne_nil := hdst.ne_nil
  holds_byDst q k := by rw [hholds, hp.exists_iff, h.holds_byDst]

end Puts

/-- A slot that keeps its value. -/
private theorem Inv.puts_self (h : Inv r) (he : (key, e) ∈ r.routeEntries) :
    Puts r key (some e) r := by
  intro k f
  by_cases hk : k = key
  · subst hk
    simp only [true_and, ne_eq, not_true, false_and, or_false, Option.some.injEq]
    exact ⟨fun hf => h.entry_unique he hf, fun hf => hf ▸ he⟩
  · simp [hk]

/-- A slot whose value gets another metric. -/
private theorem Inv.puts_metric (h : Inv r) (he : (key, e) ∈ r.routeEntries) (x : RouteMetric)
    (byGw : List (GwKey × RouteKey)) (byDst : List (DstKey × List RouteKey)) :
    Puts r key (some { e with metric := x }) ⟨r.routeEntries.map fun p =>
      (p.1, if p.1 = key then { p.2 with metric := x } else p.2), byGw, byDst⟩ := by
  intro k f
  simp only [List.mem_map, Prod.mk.injEq, Prod.exists]
  constructor
  · rintro ⟨k, f', hf', rfl, rfl⟩
    by_cases hk : k = key
    · subst hk
      rw [if_pos rfl, h.entry_unique he hf']
      exact .inl ⟨rfl, rfl⟩
    · rw [if_neg hk]
      exact .inr ⟨hk, hf'⟩
  · rintro (⟨rfl, hf⟩ | ⟨hk, hf⟩)
    · exact ⟨k, e, he, rfl, by rw [if_pos rfl]; exact some.inj hf⟩
    · exact ⟨k, f, hf, rfl, if_neg hk⟩

private theorem dropOld_of_dropFrom {byDst byDst' : List (DstKey × List RouteKey)}
    (h : dropFrom dstCmp q key byDst env.dstSearch = some (byDst', true)) :
    dropOld env byDst q key = .ok byDst' := by
  rw [dropOld, h]

section Branches

variable (hA : Apart N) (hN : r.NetsIn N) (h : Inv r)

include hA hN h

/-- **A route gets a new metric.** -/
theorem changeMetric_spec {x : RouteMetric} (he : (key, e) ∈ r.routeEntries) :
    ∃ r', r.changeMetric env e.message e.dstNet x key = .ok (r', some e.metric) ∧ Inv r' ∧
      Puts r key (some { e with metric := x }) r' := by
  rw [changeMetric, h.index_eq he]
  by_cases hx : x = e.metric
  · subst hx
    exact ⟨r, by simp [bind, Except.bind, pure, Except.pure], h, h.puts_self he⟩
  · have hnew : ({ e with metric := x } : RouteEntry).dstKey ≠ e.dstKey := by
      simpa [dstKey] using hx
    have hS : ({ e with metric := x } : RouteEntry).dstKey ∈ Apart.dstKeys N :=
      ⟨⟨e.dstNet, hN _ he, rfl⟩, trivial⟩
    obtain ⟨byDst₁, hadd, hok₁, hholds₁⟩ := addTo_spec (t := env.dstSearch) hA.orderOn_dst
      (h.multiOk hN) hS fun hc => hnew ((h.exists_iff he _).mp ((h.holds_byDst _ _).mp hc)).symm
    obtain ⟨byDst₂, hdrop, hok₂, hholds₂⟩ := dropFrom_spec (t := env.dstSearch) hA.orderOn_dst hok₁
      ((hholds₁ _ _).mpr (.inl ((h.holds_byDst _ _).mpr ⟨e, he, rfl⟩)))
    have hputs := h.puts_metric he x r.byGw byDst₂
    refine ⟨_, ?_, hputs.inv h ?_ h.sorted_byGw (fun q k => ?_) hok₂ (fun q k => ?_), hputs⟩
    · have hadd : addTo dstCmp (.ofNet e.dstNet, e.message, x) key r.byDst env.dstSearch =
          (byDst₁, true) := hadd
      have hdrop : dropOld env byDst₁ (.ofNet e.dstNet, e.message, e.metric) key = .ok byDst₂ :=
        dropOld_of_dropFrom env hdrop
      simp only [bind, Except.bind, if_neg hx, hadd, hdrop, pure, Except.pure]
    · rw [List.map_map]
      exact h.nodup
    · by_cases hk : k = key
      · subst hk
        rw [h.mem_byGw, h.exists_iff he]
        simp [gwKey]
      · simp [hk]
    · rw [hholds₂, hholds₁]
      by_cases hk : k = key
      · subst hk
        rw [h.holds_byDst, h.exists_iff he]
        simp only [true_and, and_true, ne_eq, not_true, false_and, or_false, Option.some.injEq,
          exists_eq_left']
        constructor
        · rintro ⟨hq | hq, hne⟩
          · exact absurd hq.symm hne
          · exact hq.symm
        · rintro rfl
          exact ⟨.inr rfl, hnew⟩
      · simp [hk]

/-- **A new route.** -/
theorem addRoute_spec (hn : e.dstNet ∈ N) (hfree : ∀ k f, (k, f) ∈ r.routeEntries → f.id ≠ e.id) :
    ∃ r' key, r.addRoute env e = .ok (r', none) ∧ Inv r' ∧ Puts r key (some e) r' ∧
      ∀ f, (key, f) ∉ r.routeEntries := by
  rcases halloc : env.alloc (r.routeEntries.map Prod.fst) with ⟨key, slot⟩
  have hfresh : ∀ f, (key, f) ∉ r.routeEntries := by
    intro f hf
    have := env.alloc_fresh (r.routeEntries.map Prod.fst)
    rw [halloc] at this
    exact this (mem_map_of_mem hf)
  obtain ⟨byDst', hadd, hok, hholds⟩ := addTo_spec (k := e.dstKey) (v := key)
    (t := env.dstSearch) hA.orderOn_dst (h.multiOk hN) ⟨⟨e.dstNet, hn, rfl⟩, trivial⟩ fun hc => by
      obtain ⟨f, hf, -⟩ := (h.holds_byDst _ _).mp hc
      exact hfresh f hf
  have hslot : min slot r.routeEntries.length ≤ r.routeEntries.length := min_le_right _ _
  have hputs : Puts r key (some e) ⟨r.routeEntries.insertIdx (min slot r.routeEntries.length)
      (key, e), insert gwCmp e.gwKey key r.byGw env.gwSearch, byDst'⟩ := by
    intro k f
    rw [mem_insertIdx hslot, Prod.mk.injEq, Option.some.injEq, eq_comm (a := e)]
    refine or_congr_right ⟨fun hf => ⟨?_, hf⟩, And.right⟩
    rintro rfl
    exact hfresh f hf
  refine ⟨_, key, ?_, hputs.inv h ?_ ?_ (fun q k => ?_) hok (fun q k => ?_), hputs, hfresh⟩
  · simp only [addRoute, halloc, hadd]
  · have hperm := (perm_insertIdx (key, e) r.routeEntries hslot).map Prod.fst
    rw [hperm.nodup_iff, map_cons, nodup_cons]
    refine ⟨fun hmem => ?_, h.nodup⟩
    obtain ⟨⟨k, f⟩, hf, rfl⟩ := mem_map.mp hmem
    exact hfresh f hf
  · refine sorted_insert h.sorted_byGw (h.keysIn_byGw hN) hA.orderOn_gw
      ⟨trivial, ⟨e.dstNet, hn, rfl⟩, trivial⟩ fun p hp hpe => ?_
    obtain ⟨q, k⟩ := p
    obtain ⟨f, hf, hfq⟩ := (h.mem_byGw q k).mp hp
    exact hfree k f hf (hA.id_of_gwKey (hN _ hf) hn (hfq.trans hpe))
  · have hne : ∀ {q}, (q, key) ∉ r.byGw := fun hq => by
      obtain ⟨f, hf, -⟩ := (h.mem_byGw _ _).mp hq
      exact hfresh f hf
    rw [mem_insert, Prod.mk.injEq]
    by_cases hk : k = key
    · subst hk
      simp [hne, eq_comm]
    · simp [hk]
  · have hne : ¬ Holds r.byDst q key := fun hq => by
      obtain ⟨f, hf, -⟩ := (h.holds_byDst _ _).mp hq
      exact hfresh f hf
    rw [hholds]
    by_cases hk : k = key
    · subst hk
      simp [hne, eq_comm]
    · simp [hk]

/-- **A route is removed.** -/
theorem removeRoute_spec (he : (key, e) ∈ r.routeEntries) :
    ∃ r', r.removeRoute env e.message e.dstNet e.gw key = .ok (r', some e.metric) ∧ Inv r' ∧
      Puts r key none r' := by
  obtain ⟨byDst', hdrop, hok, hholds⟩ := dropFrom_spec (t := env.dstSearch) hA.orderOn_dst
    (h.multiOk hN)
    ((h.holds_byDst e.dstKey key).mpr ⟨e, he, rfl⟩)
  have hdrop : dropOld env r.byDst (.ofNet e.dstNet, e.message, e.metric) key = .ok byDst' :=
    dropOld_of_dropFrom env hdrop
  have hgw : (e.gwKey, key) ∈ r.byGw := (h.mem_byGw _ _).mpr ⟨e, he, rfl⟩
  have hputs : Puts r key none ⟨r.routeEntries.filter (·.1 ≠ key),
      remove gwCmp e.gwKey r.byGw env.gwSearch, byDst'⟩ := by
    intro k f
    simp [and_comm]
  refine ⟨_, ?_, hputs.inv h ?_ (sorted_remove h.sorted_byGw) (fun q k => ?_) hok (fun q k => ?_),
    hputs⟩
  · simp only [removeRoute, h.index_eq he, bind, Except.bind, hdrop, pure, Except.pure]
    rfl
  · exact h.nodup.sublist (filter_sublist.map _)
  · rw [mem_remove h.sorted_byGw (h.keysIn_byGw hN) hA.orderOn_gw hgw]
    by_cases hk : k = key
    · subst hk
      rw [h.mem_byGw, h.exists_iff he]
      simp [eq_comm]
    · simp only [hk, false_and, false_or, ne_eq, not_false_iff, true_and, and_iff_left_iff_imp]
      -- another route has another key in `by_gw`
      rintro hq rfl
      obtain ⟨f, hf, hfq⟩ := (h.mem_byGw _ _).mp hq
      exact hk (h.key_unique hA hN hf he (hA.id_of_gwKey (hN _ hf) (hN _ he) hfq))
  · rw [hholds]
    by_cases hk : k = key
    · subst hk
      rw [h.holds_byDst, h.exists_iff he]
      simp [eq_comm]
    · simp [hk]

end Branches

/-! ### One call -/

section Call

variable (hA : Apart N) (hN : r.NetsIn N) (h : Inv r) {m : LocalTypeKey} {n : NetAddress}
  {g : Option Address} {x : Option RouteMetric} (hn : n ∈ N)

include hA hN h hn

private theorem dstConflict_eq_none : r.dstConflict env m n x = none := by
  rw [dstConflict, bind_eq_none_iff]
  intro x' _
  rw [entryKey_eq h.sorted_byDst (h.multiOk hN).keysIn hA.orderOn_dst ⟨⟨n, hn, rfl⟩, trivial⟩]
  exact if_neg (not_not.mpr (hA.readsBack n hn))

private theorem gwConflict_eq_none : r.gwConflict env m n g = none := by
  rw [gwConflict, entryKey_eq h.sorted_byGw (h.keysIn_byGw hN) hA.orderOn_gw
    ⟨trivial, ⟨n, hn, rfl⟩, trivial⟩]
  exact if_neg (not_not.mpr (hA.readsBack n hn))

/-- The entry in `by_gw` is that of the route. -/
private theorem entry_byGw_eq_some_iff {q : GwKey} :
    entry gwCmp (g, .ofNet n, m) r.byGw env.gwSearch = some (q, key) ↔
      q = (g, .ofNet n, m) ∧ ∃ y, (key, RouteEntry.mk m n g y) ∈ r.routeEntries := by
  rw [entry_eq_some_iff_mem h.sorted_byGw (h.keysIn_byGw hN) hA.orderOn_gw
    ⟨trivial, ⟨n, hn, rfl⟩, trivial⟩, h.mem_byGw]
  constructor
  · rintro ⟨⟨e, he, rfl⟩, hq⟩
    obtain ⟨m', n', g', y⟩ := e
    simp only [gwKey, Prod.mk.injEq] at hq
    obtain ⟨rfl, hnet, rfl⟩ := hq
    obtain rfl := hA.ofNet_inj (hN _ he) hn hnet
    exact ⟨rfl, y, he⟩
  · rintro ⟨rfl, y, he⟩
    exact ⟨⟨_, he, rfl⟩, rfl⟩

/-- Without an entry in `by_gw` there is no such route. -/
private theorem id_ne_of_entry_byGw
    (hentry : entry gwCmp (g, .ofNet n, m) r.byGw env.gwSearch = none) (k : RouteKey)
    (f : RouteEntry) (hf : (k, f) ∈ r.routeEntries) : f.id ≠ (g, n, m) := by
  obtain ⟨m', n', g', y⟩ := f
  intro hid
  simp only [RouteEntry.id, Prod.mk.injEq] at hid
  obtain ⟨rfl, rfl, rfl⟩ := hid
  rw [(entry_byGw_eq_some_iff env hA hN h hn).mpr ⟨rfl, y, hf⟩] at hentry
  contradiction

private theorem table_of_entry_byGw
    (hentry : entry gwCmp (g, .ofNet n, m) r.byGw env.gwSearch = none) :
    r.table (g, n, m) = none := by
  refine eq_none_iff_forall_ne_some.mpr fun y hy => ?_
  obtain ⟨k, hk⟩ := (h.table_eq_some_iff hA hN).mp hy
  exact id_ne_of_entry_byGw env hA hN h hn hentry k _ hk rfl

/-- What `set_route` does without a conflict. -/
private theorem update_spec : ∃ r', r.update env m n g x = .ok (r', r.table (g, n, m)) ∧
    Inv r' ∧ r'.NetsIn N ∧ r'.table = Function.update r.table (g, n, m) x := by
  cases hentry : entry gwCmp (g, .ofNet n, m) r.byGw env.gwSearch with
  | some p =>
    obtain ⟨q, key⟩ := p
    obtain ⟨rfl, y, he⟩ := (entry_byGw_eq_some_iff env hA hN h hn).mp hentry
    have htable : r.table (g, n, m) = some y := (h.table_eq_some_iff hA hN).mpr ⟨key, he⟩
    have hslot : ∀ k f, (k, f) ∈ r.routeEntries → (k = key ↔ f.id = (g, n, m)) := by
      intro k f hf
      refine ⟨?_, fun hid => h.key_unique hA hN hf he hid⟩
      rintro rfl
      rw [h.entry_unique hf he]
      rfl
    cases x with
    | some x =>
      obtain ⟨r', hr', hinv, hputs⟩ := changeMetric_spec env (x := x) hA hN h he
      have hN' : r'.NetsIn N := hputs.netsIn hN fun f hf => some.inj hf ▸ hn
      refine ⟨r', ?_, hinv, hN', Puts.table_eq (x := some x) hputs hA h hinv hN hN' hslot⟩
      simp only [update, hentry, htable]
      exact hr'
    | none =>
      obtain ⟨r', hr', hinv, hputs⟩ := removeRoute_spec env hA hN h he
      have hN' : r'.NetsIn N := hputs.netsIn hN (by simp)
      refine ⟨r', ?_, hinv, hN', Puts.table_eq (x := none) hputs hA h hinv hN hN' hslot⟩
      simp only [update, hentry, htable]
      exact hr'
  | none =>
    have hfree := id_ne_of_entry_byGw env hA hN h hn hentry
    have htable := table_of_entry_byGw env hA hN h hn hentry
    simp only [update, hentry, htable]
    cases x with
    | some x =>
      obtain ⟨r', key, hr', hinv, hputs, hfresh⟩ :=
        addRoute_spec env (e := ⟨m, n, g, x⟩) hA hN h hn hfree
      have hN' : r'.NetsIn N := hputs.netsIn hN fun f hf => some.inj hf ▸ hn
      refine ⟨r', hr', hinv, hN', Puts.table_eq (x := some x) hputs hA h hinv hN hN' ?_⟩
      intro k f hf
      refine iff_of_false ?_ (hfree k f hf)
      rintro rfl
      exact hfresh f hf
    | none => exact ⟨r, rfl, h, hN, (Function.update_eq_self_iff.mpr htable.symm).symm⟩

/-- A call that sets the metric there is changes nothing. -/
private theorem update_of_same (hx : r.table (g, n, m) = x) :
    r.update env m n g x = .ok (r, x) := by
  cases hentry : entry gwCmp (g, .ofNet n, m) r.byGw env.gwSearch with
  | some p =>
    obtain ⟨q, key⟩ := p
    obtain ⟨rfl, y, he⟩ := (entry_byGw_eq_some_iff env hA hN h hn).mp hentry
    have htable : r.table (g, n, m) = some y := (h.table_eq_some_iff hA hN).mpr ⟨key, he⟩
    obtain rfl : x = some y := hx.symm.trans htable
    simp only [update, hentry, changeMetric, h.index_eq he, bind, Except.bind, if_pos]
    rfl
  | none =>
    obtain rfl : x = none := hx.symm.trans (table_of_entry_byGw env hA hN h hn hentry)
    simp only [update, hentry]

/-- **One call of `set_route`** updates the table and answers with the metric there was. -/
theorem setRoute_spec : ∃ r', r.setRoute env m n g x = .ok (r', .ok (r.table (g, n, m))) ∧
    Inv r' ∧ r'.NetsIn N ∧ r'.table = Function.update r.table (g, n, m) x := by
  obtain ⟨r', hr', hrest⟩ := update_spec env (x := x) hA hN h hn
  refine ⟨r', ?_, hrest⟩
  rw [setRoute, dstConflict_eq_none env hA hN h hn, gwConflict_eq_none env hA hN h hn, none_or, hr']
  rfl

theorem setRoute_of_same (hx : r.table (g, n, m) = x) :
    r.setRoute env m n g x = .ok (r, .ok x) := by
  rw [setRoute, dstConflict_eq_none env hA hN h hn, gwConflict_eq_none env hA hN h hn,
    none_or, update_of_same env hA hN h hn hx]
  rfl

end Call

/-! ### Lookups -/

/-- What `find_route` answers is a route under the key that it stops at. -/
theorem findRoute_of_next (h : Inv r) {m : LocalTypeKey}
    (hq : next dstCmp (.ofAddress a, m, 0) r.byDst env.dstSearch = some (q, s)) (hm : q.2.1 = m) :
    ∃ key e, (key, e) ∈ r.routeEntries ∧ e.dstKey = q ∧
      r.findRoute env m a = .ok (.ok (e.gw, e.metric)) := by
  have hmem := mem_of_next hq
  have hcand : (env.iter s).take maxCandidates ≠ [] := by
    intro hnil
    rcases take_eq_nil_iff.mp hnil with hmax | hnil
    · exact absurd hmax (by decide)
    · have hperm := env.iter_perm s
      rw [hnil] at hperm
      exact h.byDst_ne_nil _ hmem hperm.nil_eq.symm
  have hi : env.addrHash a % ((env.iter s).take maxCandidates).length <
      ((env.iter s).take maxCandidates).length := Nat.mod_lt _ (length_pos_iff.mpr hcand)
  have hkey := getElem_mem hi
  obtain ⟨e, he, heq⟩ := (h.holds_byDst q _).mp
    ⟨s, hmem, (env.iter_perm s).mem_iff.mp (mem_of_mem_take hkey)⟩
  refine ⟨_, e, he, heq, ?_⟩
  have hfilter : (next dstCmp (.ofAddress a, m, 0) r.byDst env.dstSearch).filter
      (fun e => e.1.2.1 = m) = some (q, s) := by
    rw [hq, filter_some, if_pos (decide_eq_true hm)]
  simp only [findRoute, hfilter, if_neg hcand, List.getElem?_eq_getElem hi, h.index_eq he]
  rfl

theorem findRoute_of_not_next {m : LocalTypeKey}
    (hq : ∀ q s, next dstCmp (.ofAddress a, m, 0) r.byDst env.dstSearch = some (q, s) → q.2.1 ≠ m) :
    r.findRoute env m a = .ok (.error .noRoute) := by
  have hfilter : (next dstCmp (.ofAddress a, m, 0) r.byDst env.dstSearch).filter
      (fun e => e.1.2.1 = m) = none := by
    refine filter_eq_none_iff.mpr fun ⟨q, s⟩ hnext => ?_
    simpa using hq q s hnext
  simp only [findRoute, hfilter]

/-- `find_route` ends without a panic. -/
theorem findRoute_ok (h : Inv r) (m : LocalTypeKey) (a : Address) :
    ∃ res, r.findRoute env m a = .ok res := by
  by_cases hq : ∃ q s, next dstCmp (.ofAddress a, m, 0) r.byDst env.dstSearch = some (q, s) ∧
      q.2.1 = m
  · obtain ⟨q, s, hq, hm⟩ := hq
    obtain ⟨_, e, -, -, hfind⟩ := findRoute_of_next env h hq hm
    exact ⟨_, hfind⟩
  · push Not at hq
    exact ⟨_, findRoute_of_not_next env hq⟩

/-- The set of a stored route. -/
theorem Inv.exists_byDst (h : Inv r) (he : (key, e) ∈ r.routeEntries) :
    ∃ s, (e.dstKey, s) ∈ r.byDst := by
  obtain ⟨s, hs, -⟩ := (h.holds_byDst e.dstKey key).mpr ⟨e, he, rfl⟩
  exact ⟨s, hs⟩

/-- A key of `by_dst` is that of a stored route. -/
theorem Inv.exists_route (h : Inv r) (hq : (q, s) ∈ r.byDst) :
    ∃ key e, (key, e) ∈ r.routeEntries ∧ e.dstKey = q := by
  obtain ⟨key, hkey⟩ := exists_mem_of_ne_nil s (h.byDst_ne_nil _ hq)
  obtain ⟨e, he, heq⟩ := (h.holds_byDst q key).mp ⟨s, hq, hkey⟩
  exact ⟨key, e, he, heq⟩

section Lookup

variable (hA : Apart N) (hN : r.NetsIn N) (h : Inv r) {n : NetAddress}

include hA hN h

/-- A key of `by_dst` that is neither before nor after a stored route has its destination. -/
private theorem ofRange_eq {f : DstKey × List RouteKey} (he : (key, e) ∈ r.routeEntries)
    (hf : f ∈ r.byDst) (hlt : AddressRange.cmp (.ofNet e.dstNet) f.1.1 ≠ .lt)
    (hgt : AddressRange.cmp (.ofNet e.dstNet) f.1.1 ≠ .gt) :
    NetAddress.ofRange f.1.1 = e.dstNet := by
  have heq := (hA.orderOn.eq_iff ⟨_, hN _ he, rfl⟩ ((h.multiOk hN).keysIn f hf).1).mp
    (eq_of_ne hlt hgt)
  rw [← heq]
  exact hA.readsBack _ (hN _ he)

/-- **`contains_net`** tells whether the subnet is the destination of a route. -/
theorem containsNet_iff : r.containsNet env n = true ↔ ∃ p ∈ r.routeEntries, p.2.dstNet = n := by
  rw [containsNet, Bool.or_eq_true]
  constructor
  · -- what is found is a stored route with this destination
    have hfound : ∀ {f}, f ∈ r.byDst → NetAddress.ofRange f.1.1 = n →
        ∃ p ∈ r.routeEntries, p.2.dstNet = n := by
      rintro ⟨q, s⟩ hf hn
      obtain ⟨key, e, he, rfl⟩ := h.exists_route hf
      exact ⟨_, he, (hA.readsBack _ (hN _ he)).symm.trans hn⟩
    rintro (hback | hnext)
    · obtain ⟨f, hf, hn⟩ := (any_eq_true _ _).mp hback
      exact hfound (mem_of_nextBack hf) (of_decide_eq_true hn)
    · obtain ⟨f, hf, hn⟩ := (any_eq_true _ _).mp hnext
      exact hfound (mem_of_next hf) (of_decide_eq_true hn)
  · rintro ⟨⟨key, e⟩, he, rfl⟩
    obtain ⟨s, hs⟩ := h.exists_byDst he
    have hprobe : Probe dstCmp (Apart.dstKeys N) (.ofNet e.dstNet, .null, 0) :=
      hA.orderOn_dst.probe ⟨⟨_, hN _ he, rfl⟩, trivial⟩
    by_cases hgt : dstCmp (.ofNet e.dstNet, .null, 0) e.dstKey = .gt
    · -- the last key before the probe lies between the route and the probe
      obtain ⟨f, hf, hpf, hef⟩ := exists_nextBack h.sorted_byDst (h.multiOk hN).keysIn hprobe hs hgt
      refine .inl ((any_eq_true _ _).mpr ⟨f, hf, decide_eq_true ?_⟩)
      refine ofRange_eq hA hN h he (mem_of_nextBack hf) (fst_ne_lt_of_gt hpf) ?_
      rcases hef with rfl | hef
      · rw [dstKey, cmp_self]
        exact Ordering.noConfusion
      · exact fst_ne_gt_of_lt hef
    · obtain ⟨f, hf, hpf, hfe⟩ := exists_next h.sorted_byDst (h.multiOk hN).keysIn hprobe hs hgt
      refine .inr ((any_eq_true _ _).mpr ⟨f, hf, decide_eq_true ?_⟩)
      refine ofRange_eq hA hN h he (mem_of_next hf) (fun hlt => ?_) (fst_ne_gt hpf)
      rcases hfe with rfl | hfe
      · rw [dstKey, cmp_self] at hlt
        contradiction
      · have hne : AddressRange.cmp f.1.1 (.ofNet e.dstNet) ≠ .gt := fst_ne_gt_of_lt hfe
        rw [cmp_swap, hlt] at hne
        exact hne rfl

/-- **Where `find_route` stops** when a route for the message has the address in its subnet: at
the routes for the message and the subnet with the least metric. -/
theorem exists_next_of_mem {m : LocalTypeKey} {g : Option Address} {y : RouteMetric}
    (he : (key, ⟨m, n, g, y⟩) ∈ r.routeEntries) (ha : (ofNet n).Mem a) :
    ∃ x s, next dstCmp (.ofAddress a, m, 0) r.byDst env.dstSearch = some ((.ofNet n, m, x), s) ∧
      x ≤ y := by
  obtain ⟨s, hs⟩ : ∃ s, ((ofNet n, m, y), s) ∈ r.byDst := h.exists_byDst he
  have hS : ∀ {q t}, (q, t) ∈ r.byDst → q.1 ∈ ofNet '' N := fun hq =>
    ((h.multiOk hN).keysIn _ hq).1
  have hcmp : AddressRange.cmp (.ofAddress a) (.ofNet n) = .eq := cmp_ofAddress.mpr ha
  have hprobe : Probe dstCmp (Apart.dstKeys N) (.ofAddress a, m, 0) := by
    refine Probe.lex hA.orderOn probe_ofAddress ?_
    rw [← Set.univ_prod_univ]
    exact (KeyData.orderOn_cmp.lex orderOn_compare).probe ⟨trivial, trivial⟩
  have hle : dstCmp (.ofAddress a, m, 0) (.ofNet n, m, y) ≠ .gt := by
    rw [dstCmp, lexCmp, lexCmp, hcmp, KeyData.cmp_self]
    exact Ordering.ne_gt_iff_isLE.mpr (Std.isLE_compare.mpr UInt8.zero_le)
  obtain ⟨⟨⟨rf, mf, xf⟩, t⟩, hf, hpf, hfe⟩ :=
    exists_next h.sorted_byDst (h.multiOk hN).keysIn hprobe hs hle
  rcases hfe with heq | hfe
  · simp only [Prod.mk.injEq] at heq
    obtain ⟨⟨rfl, rfl, rfl⟩, rfl⟩ := heq
    exact ⟨_, _, hf, UInt8.le_refl _⟩
  rcases lexCmp_eq_lt.mp hfe with hlt | ⟨hrange, hlt⟩
  · -- the range of a key before the route would be passed
    have hpassed := probe_ofAddress (hS (mem_of_next hf)) (hS hs) hlt (fst_ne_gt hpf)
    rw [hcmp] at hpassed
    contradiction
  · obtain rfl : rf = .ofNet n := (hA.orderOn.eq_iff (hS (mem_of_next hf)) (hS hs)).mp hrange
    -- both keys have this range, so that messages and metrics decide
    have hpf : lexCmp KeyData.cmp compare (m, 0) (mf, xf) ≠ .gt := by
      rwa [dstCmp, lexCmp, hcmp] at hpf
    rcases lexCmp_eq_lt.mp hlt with hlt | ⟨hmsg, hlt⟩
    · have hgt := KeyData.orderOn_cmp.swap (S := Set.univ) (a := mf) (b := m) trivial trivial
      rw [hlt] at hgt
      exact absurd hgt (fst_ne_gt hpf)
    · obtain rfl : mf = m := (KeyData.orderOn_cmp.eq_iff (S := Set.univ) trivial trivial).mp hmsg
      refine ⟨xf, t, hf, Std.isLE_compare.mp ?_⟩
      rw [hlt]
      rfl

end Lookup

end RouteRegistry

end Mm1
