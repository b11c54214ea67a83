import Mathlib.Data.List.TakeWhile
import Mathlib.Data.Set.Prod

/-!
# Maps in the order of their keys

An ordered map as a list of entries in the order of their keys, searched by a comparison
`cmp : K → K → Ordering` that need not be an order. A lookup follows a tree over the entries
(`Search`) and stops at an entry that is called equal or between two entries.

What a lookup finds does not depend on the tree when `cmp` orders the keys of the map and places
the sought key among them:

* `OrderOn cmp S`: `cmp` is a linear order on the keys of `S`; `OrderOn.lex` for pairs,
  `OrderOn.option` for optional keys;
* `Probe cmp S p`: among the keys of `S`, first come those that `p` is greater than, then at most
  one that `p` is equal to, then those that `p` is less than. `p` itself need not be in `S`;
* `entry_eq_some_iff`, `exists_next`, `exists_nextBack`: what the lookups find;
* `mem_insert`, `mem_remove`, `mem_replace`: what the updates change, with a lemma each that the
  order is kept;
* `Caught cmp S p`, `Caught.exists_entry`: `p` may be equal to several keys of `S`, and still every
  tree leads to one of them;
* `add_spec`, `discard_spec`: maps without values, as sets.
-/

namespace OrderedMap

open Option List

variable {K V A B : Type*} {cmp : K → K → Ordering} {S T : Set K} {p k : K} {a b : K}

/-! ### Comparisons that order a set of keys -/

/-- The comparison is a linear order on the keys of `S`. -/
structure OrderOn (cmp : K → K → Ordering) (S : Set K) : Prop where
  swap : ∀ {a b}, a ∈ S → b ∈ S → cmp b a = (cmp a b).swap
  eq_iff : ∀ {a b}, a ∈ S → b ∈ S → (cmp a b = .eq ↔ a = b)
  trans : ∀ {a b c}, a ∈ S → b ∈ S → c ∈ S → cmp a b = .lt → cmp b c = .lt → cmp a c = .lt

/-- The comparison places `p` among the keys of `S`. -/
def Probe (cmp : K → K → Ordering) (S : Set K) (p : K) : Prop :=
  ∀ ⦃a b⦄, a ∈ S → b ∈ S → cmp a b = .lt → cmp p a ≠ .gt → cmp p b = .lt

/-- A comparison that is the same from both sides, and transitive where it tells keys apart. -/
structure StrictCmp (cmp : K → K → Ordering) : Prop where
  swap : ∀ a b, cmp b a = (cmp a b).swap
  trans : ∀ {a b c}, cmp a b = .lt → cmp b c = .lt → cmp a c = .lt

theorem StrictCmp.lt_of_gt (h : StrictCmp cmp) (hab : cmp a b = .gt) : cmp b a = .lt := by
  rw [h.swap, hab]
  rfl

theorem StrictCmp.gt_of_lt (h : StrictCmp cmp) (hab : cmp a b = .lt) : cmp b a = .gt := by
  rw [h.swap, hab]
  rfl

theorem OrderOn.strictCmp (h : OrderOn cmp Set.univ) : StrictCmp cmp where
  swap _ _ := h.swap trivial trivial
  trans := h.trans trivial trivial trivial

/-- A key of the set has its place. -/
theorem OrderOn.probe (h : OrderOn cmp S) (hp : p ∈ S) : Probe cmp S p := by
  intro a b ha hb hab hpa
  cases hc : cmp p a with
  | lt => exact h.trans hp ha hb hc hab
  | eq =>
    obtain rfl := (h.eq_iff hp ha).mp hc
    exact hab
  | gt => exact absurd hc hpa

theorem eq_of_ne {o : Ordering} (hlt : o ≠ .lt) (hgt : o ≠ .gt) : o = .eq := by
  cases o <;> first | rfl | contradiction

theorem OrderOn.lt_of_gt (h : OrderOn cmp S) (ha : a ∈ S) (hb : b ∈ S) (hab : cmp a b = .gt) :
    cmp b a = .lt := by
  rw [h.swap ha hb, hab]
  rfl

/-- `compare` is an order on any set of keys. -/
theorem orderOn_compare [Ord K] [Std.TransOrd K] [Std.LawfulEqOrd K] :
    OrderOn (compare : K → K → Ordering) S where
  swap _ _ := Std.OrientedCmp.eq_swap
  eq_iff _ _ := Std.LawfulEqOrd.compare_eq_iff_eq
  trans _ _ _ hab hbc := Std.TransCmp.lt_trans hab hbc

theorem OrderOn.mono (h : OrderOn cmp T) (hsub : S ⊆ T) : OrderOn cmp S where
  swap ha hb := h.swap (hsub ha) (hsub hb)
  eq_iff ha hb := h.eq_iff (hsub ha) (hsub hb)
  trans ha hb hc := h.trans (hsub ha) (hsub hb) (hsub hc)

/-- An order read through an injection. -/
theorem OrderOn.comap {c : A → A → Ordering} {f : K → A} (h : OrderOn c Set.univ)
    (hf : Function.Injective f) : OrderOn (fun k k' => c (f k) (f k')) S where
  swap _ _ := h.swap trivial trivial
  eq_iff _ _ := (h.eq_iff trivial trivial).trans hf.eq_iff
  trans _ _ _ := h.trans trivial trivial trivial

/-! ### Pairs -/

/-- The comparison of pairs: the second components decide between equal first ones. -/
def lexCmp (c : A → A → Ordering) (c' : B → B → Ordering) (x y : A × B) : Ordering :=
  (c x.1 y.1).then (c' x.2 y.2)

section Lex

variable {c : A → A → Ordering} {c' : B → B → Ordering} {s : Set A} {s' : Set B} {x y : A × B}

theorem lexCmp_eq_gt : lexCmp c c' x y = .gt ↔
    c x.1 y.1 = .gt ∨ c x.1 y.1 = .eq ∧ c' x.2 y.2 = .gt := by
  rw [lexCmp, Ordering.then_eq_gt]

theorem lexCmp_eq_lt : lexCmp c c' x y = .lt ↔
    c x.1 y.1 = .lt ∨ c x.1 y.1 = .eq ∧ c' x.2 y.2 = .lt := by
  rw [lexCmp, Ordering.then_eq_lt]

theorem lexCmp_eq_eq : lexCmp c c' x y = .eq ↔ c x.1 y.1 = .eq ∧ c' x.2 y.2 = .eq := by
  rw [lexCmp, Ordering.then_eq_eq]

theorem lexCmp_of_eq (h : c x.1 y.1 = .eq) : lexCmp c c' x y = c' x.2 y.2 := by
  rw [lexCmp, h]
  rfl

theorem lexCmp_of_ne (h : c x.1 y.1 ≠ .eq) : lexCmp c c' x y = c x.1 y.1 := by
  rw [lexCmp]
  cases hc : c x.1 y.1 <;> first | rfl | exact absurd hc h

theorem fst_ne_gt (h : lexCmp c c' x y ≠ .gt) : c x.1 y.1 ≠ .gt :=
  fun hgt => h (lexCmp_eq_gt.mpr (.inl hgt))

theorem fst_ne_lt (h : lexCmp c c' x y ≠ .lt) : c x.1 y.1 ≠ .lt :=
  fun hlt => h (lexCmp_eq_lt.mpr (.inl hlt))

theorem fst_ne_gt_of_lt (h : lexCmp c c' x y = .lt) : c x.1 y.1 ≠ .gt :=
  fst_ne_gt (by rw [h]; exact Ordering.noConfusion)

theorem fst_ne_lt_of_gt (h : lexCmp c c' x y = .gt) : c x.1 y.1 ≠ .lt :=
  fst_ne_lt (by rw [h]; exact Ordering.noConfusion)

/-- **Pairs of ordered keys are ordered.** -/
theorem OrderOn.lex (h : OrderOn c s) (h' : OrderOn c' s') : OrderOn (lexCmp c c') (s ×ˢ s') where
  swap ha hb := by
    rw [lexCmp, lexCmp, Ordering.swap_then, ← h.swap ha.1 hb.1, ← h'.swap ha.2 hb.2]
  eq_iff ha hb := by
    rw [lexCmp_eq_eq, h.eq_iff ha.1 hb.1, h'.eq_iff ha.2 hb.2, Prod.ext_iff]
  trans {x y z} hx hy hz hxy hyz := by
    rw [lexCmp_eq_lt] at hxy hyz ⊢
    rcases hxy with hxy | ⟨hxy, hxy'⟩
    · left
      rcases hyz with hyz | ⟨hyz, -⟩
      · exact h.trans hx.1 hy.1 hz.1 hxy hyz
      · rwa [← (h.eq_iff hy.1 hz.1).mp hyz]
    · rw [(h.eq_iff hx.1 hy.1).mp hxy]
      rcases hyz with hyz | ⟨hyz, hyz'⟩
      · exact .inl hyz
      · exact .inr ⟨hyz, h'.trans hx.2 hy.2 hz.2 hxy' hyz'⟩

/-- **A pair has its place** when its components have theirs. -/
theorem Probe.lex {p : A × B} (h : OrderOn c s) (hp : Probe c s p.1) (hp' : Probe c' s' p.2) :
    Probe (lexCmp c c') (s ×ˢ s') p := by
  intro x y hx hy hxy hpx
  rw [Ne, lexCmp_eq_gt, not_or] at hpx
  rw [lexCmp_eq_lt] at hxy ⊢
  rcases hxy with hxy | ⟨hxy, hxy'⟩
  · exact .inl (hp hx.1 hy.1 hxy hpx.1)
  · rw [← (h.eq_iff hx.1 hy.1).mp hxy]
    cases hc : c p.1 x.1 with
    | lt => exact .inl rfl
    | eq => exact .inr ⟨rfl, hp' hx.2 hy.2 hxy' fun hgt => hpx.2 ⟨hc, hgt⟩⟩
    | gt => exact absurd hc hpx.1

end Lex

/-! ### Optional keys -/

/-- The comparison of optional keys: `none` comes first. -/
def optionCmp (c : A → A → Ordering) : Option A → Option A → Ordering
  | none, none => .eq
  | none, some _ => .lt
  | some _, none => .gt
  | some a, some b => c a b

/-- **Optional keys are ordered** when the keys are. -/
theorem OrderOn.option {c : A → A → Ordering} (h : OrderOn c Set.univ) :
    OrderOn (optionCmp c) Set.univ where
  swap {a b} _ _ := by
    cases a <;> cases b <;> first | rfl | exact h.swap trivial trivial
  eq_iff {a b} _ _ := by
    cases a <;> cases b <;> simp [optionCmp, h.eq_iff trivial trivial]
  trans {a b c} _ _ _ hab hbc := by
    cases a <;> cases b <;> cases c <;>
      first | rfl | contradiction | exact h.trans trivial trivial trivial hab hbc

/-! ### Searches -/

/-- The shape of a binary tree. -/
inductive Shape
  | leaf
  | node (left right : Shape)

namespace Shape

/-- The number of entries in a tree of this shape. -/
def size : Shape → ℕ
  | leaf => 0
  | node left right => left.size + right.size + 1

/-- Each entry is to the right of the one before it, so that they are compared one by one. -/
def spine : ℕ → Shape
  | 0 => leaf
  | n + 1 => node leaf (spine n)

/-- Follows the comparison down a tree with the entries `m`: the entries before the place where
this ends, and those from there on. -/
def split (cmp : K → K → Ordering) (p : K) : Shape → List (K × V) → List (K × V) × List (K × V)
  | leaf, m => ([], m)
  | node left right, m =>
    match m.drop left.size with
    | [] => (m, [])
    | e :: rest =>
      match cmp p e.1 with
      | .lt =>
        let (before, after) := left.split cmp p (m.take left.size)
        (before, after ++ e :: rest)
      | .eq => (m.take left.size, e :: rest)
      | .gt =>
        let (before, after) := right.split cmp p rest
        (m.take left.size ++ e :: before, after)

end Shape

/-- How a map is searched: the tree that it has with each number of entries. The nodes of a B-tree,
whose keys are compared from left to right, make up such a tree as well. -/
structure Search where
  shape : ℕ → Shape
  size_shape : ∀ n, (shape n).size = n

/-- The entries are compared one by one. -/
def Search.scan : Search where
  shape := .spine
  size_shape n := by
    induction n with
    | zero => rfl
    | succ n ih => rw [Shape.spine, Shape.size, ih, Shape.size, Nat.zero_add]

/-! ### Lookups and updates -/

variable {m : List (K × V)} {e e' : K × V} {v : V} {t : Search} {before after rest : List (K × V)}

/-- The entries before the place where a lookup of `p` stops. -/
def below (cmp : K → K → Ordering) (p : K) (m : List (K × V)) (t : Search := .scan) :
    List (K × V) :=
  ((t.shape m.length).split cmp p m).1

/-- The entries from where a lookup of `p` stops. -/
def above (cmp : K → K → Ordering) (p : K) (m : List (K × V)) (t : Search := .scan) :
    List (K × V) :=
  ((t.shape m.length).split cmp p m).2

/-- The entry of a key, if there is one. -/
def entry (cmp : K → K → Ordering) (p : K) (m : List (K × V)) (t : Search := .scan) :
    Option (K × V) :=
  (above cmp p m t).head?.filter fun e => cmp p e.1 == .eq

/-- The key of the entry of `p`: the one found, or else `p` itself. -/
def entryKey (cmp : K → K → Ordering) (p : K) (m : List (K × V)) (t : Search := .scan) : K :=
  (entry cmp p m t).elim p Prod.fst

/-- The first entry at or after `p`. -/
def next (cmp : K → K → Ordering) (p : K) (m : List (K × V)) (t : Search := .scan) :
    Option (K × V) :=
  (above cmp p m t).head?

/-- The last entry before `p`. -/
def nextBack (cmp : K → K → Ordering) (p : K) (m : List (K × V)) (t : Search := .scan) :
    Option (K × V) :=
  (below cmp p m t).getLast?

/-- Inserts an entry for a key that has none. -/
def insert (cmp : K → K → Ordering) (k : K) (v : V) (m : List (K × V)) (t : Search := .scan) :
    List (K × V) :=
  below cmp k m t ++ (k, v) :: above cmp k m t

/-- Removes the entry of a key that has one. -/
def remove (cmp : K → K → Ordering) (k : K) (m : List (K × V)) (t : Search := .scan) :
    List (K × V) :=
  below cmp k m t ++ (above cmp k m t).tail

/-- Replaces the value of a key that has one; the key stays the one it was. -/
def replace (cmp : K → K → Ordering) (k : K) (v : V) (m : List (K × V)) (t : Search := .scan) :
    List (K × V) :=
  below cmp k m t ++ (above cmp k m t).modifyHead fun e => (e.1, v)

/-- The entries are in the order of their keys. -/
def Sorted (cmp : K → K → Ordering) (m : List (K × V)) : Prop :=
  m.Pairwise fun e e' => cmp e.1 e'.1 = .lt

/-- The keys of the map lie in `S`. -/
def KeysIn (S : Set K) (m : List (K × V)) : Prop := ∀ e ∈ m, e.1 ∈ S

/-- A lookup may stop between the two lists: at an entry that is called equal, or after one that is
less and before one that is greater, as far as there are such. -/
def StopsAt (cmp : K → K → Ordering) (p : K) (before after : List (K × V)) : Prop :=
  (∃ e, after.head? = some e ∧ cmp p e.1 = .eq) ∨
    (∀ e, before.getLast? = some e → cmp p e.1 = .gt) ∧
      ∀ e, after.head? = some e → cmp p e.1 = .lt

/-- The search goes left. -/
theorem StopsAt.append (h : StopsAt cmp p before after) (he : cmp p e.1 = .lt) :
    StopsAt cmp p before (after ++ e :: rest) := by
  cases after with
  | nil =>
    rcases h with ⟨f, hf, -⟩ | ⟨hbefore, -⟩
    · contradiction
    · exact .inr ⟨hbefore, fun f hf => some.inj hf ▸ he⟩
  | cons f after => exact h

/-- The search goes right. -/
theorem StopsAt.prepend (h : StopsAt cmp p before after) (he : cmp p e.1 = .gt) :
    StopsAt cmp p (rest ++ e :: before) after := by
  refine h.imp_right fun ⟨hbefore, hafter⟩ => ⟨fun f hf => ?_, hafter⟩
  rw [List.getLast?_append, List.getLast?_cons] at hf
  cases hlast : before.getLast? with
  | none =>
    rw [hlast] at hf
    exact some.inj hf ▸ he
  | some g =>
    rw [hlast] at hf
    exact some.inj hf ▸ hbefore g hlast

/-- **Where a search stops.** -/
theorem Shape.split_spec (t : Shape) {m : List (K × V)} (h : t.size = m.length) :
    (t.split cmp p m).1 ++ (t.split cmp p m).2 = m ∧
      StopsAt cmp p (t.split cmp p m).1 (t.split cmp p m).2 := by
  induction t generalizing m with
  | leaf =>
    obtain rfl := length_eq_zero_iff.mp h.symm
    exact ⟨rfl, .inr ⟨by simp [split], by simp [split]⟩⟩
  | node left right ihl ihr =>
    have hcut := take_append_drop left.size m
    have hleft : left.size = (m.take left.size).length := by
      rw [size] at h
      rw [length_take]
      omega
    cases hdrop : m.drop left.size with
    | nil =>
      have hlen := drop_eq_nil_iff.mp hdrop
      rw [size] at h
      omega
    | cons e rest =>
      rw [hdrop] at hcut
      have hright : right.size = rest.length := by
        have hlen := congrArg List.length hcut
        rw [length_append, length_cons, ← hleft, ← h, size] at hlen
        omega
      cases hc : cmp p e.1 with
      | lt =>
        simp only [split, hdrop, hc]
        obtain ⟨happ, hstop⟩ := ihl hleft
        exact ⟨by rw [← append_assoc, happ, hcut], hstop.append hc⟩
      | eq =>
        simp only [split, hdrop, hc]
        exact ⟨hcut, .inl ⟨e, rfl, hc⟩⟩
      | gt =>
        simp only [split, hdrop, hc]
        obtain ⟨happ, hstop⟩ := ihr hright
        exact ⟨by rw [append_assoc, cons_append, happ, hcut], hstop.prepend hc⟩

theorem below_append_above (cmp : K → K → Ordering) (p : K) (m : List (K × V)) (t : Search) :
    below cmp p m t ++ above cmp p m t = m :=
  (Shape.split_spec _ (t.size_shape _)).1

theorem stopsAt (cmp : K → K → Ordering) (p : K) (m : List (K × V)) (t : Search) :
    StopsAt cmp p (below cmp p m t) (above cmp p m t) :=
  (Shape.split_spec _ (t.size_shape _)).2

theorem mem_of_mem_below (h : e ∈ below cmp p m t) : e ∈ m := by
  rw [← below_append_above cmp p m t]
  exact mem_append_left _ h

theorem mem_of_mem_above (h : e ∈ above cmp p m t) : e ∈ m := by
  rw [← below_append_above cmp p m t]
  exact mem_append_right _ h

theorem mem_of_next (h : next cmp p m t = some e) : e ∈ m := mem_of_mem_above (mem_of_mem_head? h)

theorem mem_of_nextBack (h : nextBack cmp p m t = some e) : e ∈ m :=
  mem_of_mem_below (mem_of_mem_getLast? h)

/-- An entry that is found is one of the map, and its key is called equal. -/
theorem mem_of_entry (h : entry cmp p m t = some e) : e ∈ m ∧ cmp p e.1 = .eq := by
  rw [entry, filter_eq_some_iff] at h
  exact ⟨mem_of_next h.1, beq_iff_eq.mp h.2⟩

/-- Where the lookup stops, the key is not passed. -/
theorem ne_gt_of_next (h : next cmp p m t = some e) : cmp p e.1 ≠ .gt := by
  rcases stopsAt cmp p m t with ⟨f, hf, heq⟩ | ⟨-, hlt⟩
  · obtain rfl := some.inj (hf.symm.trans h)
    rw [heq]
    exact Ordering.noConfusion
  · rw [hlt e h]
    exact Ordering.noConfusion

theorem entry_of_next (h : next cmp p m t = some e) (heq : cmp p e.1 = .eq) :
    entry cmp p m t = some e := by
  have hhead : (above cmp p m t).head? = some e := h
  rw [entry, hhead, filter_some, heq]
  rfl

section Sorted

variable (hm : Sorted cmp m)

include hm

/-- The order on both sides of the cut. -/
theorem sorted_split : Sorted cmp (below cmp p m t) ∧ Sorted cmp (above cmp p m t) ∧
    ∀ e ∈ below cmp p m t, ∀ e' ∈ above cmp p m t, cmp e.1 e'.1 = .lt := by
  rw [← below_append_above cmp p m t] at hm
  exact pairwise_append.mp hm

/-- The last entry before the place of the lookup is the greatest of them. -/
theorem le_nextBack (he : e ∈ below cmp p m t) :
    ∃ f, nextBack cmp p m t = some f ∧ (e = f ∨ cmp e.1 f.1 = .lt) := by
  obtain ⟨l, f, hf⟩ := (eq_nil_or_concat (below cmp p m t)).resolve_left (ne_nil_of_mem he)
  rw [concat_eq_append] at hf
  refine ⟨f, List.getLast?_eq_some_iff.mpr ⟨l, hf⟩, ?_⟩
  have hsort := (sorted_split (p := p) (t := t) hm).1
  rw [hf] at hsort he
  rcases mem_append.mp he with he | he
  · exact .inr ((pairwise_append.mp hsort).2.2 e he f (mem_singleton_self f))
  · exact .inl (mem_singleton.mp he)

/-- The first entry from the place of the lookup on is the least of them. -/
theorem next_le (he : e ∈ above cmp p m t) :
    ∃ f, next cmp p m t = some f ∧ (f = e ∨ cmp f.1 e.1 = .lt) := by
  obtain ⟨f, r, hf⟩ := exists_cons_of_ne_nil (ne_nil_of_mem he)
  refine ⟨f, by rw [next, hf, List.head?_cons], ?_⟩
  have hsort := (sorted_split (p := p) (t := t) hm).2.1
  rw [hf] at hsort he
  rcases mem_cons.mp he with rfl | he
  · exact .inl rfl
  · exact .inr (rel_of_pairwise_cons hsort he)

end Sorted

section Ordered

variable (hm : Sorted cmp m) (hS : KeysIn S m)

include hm hS

section Probes

variable (hp : Probe cmp S p)

include hp

/-- From where the lookup stops, nothing would be passed. -/
theorem ne_gt_of_mem_above (he : e ∈ above cmp p m t) : cmp p e.1 ≠ .gt := by
  obtain ⟨f, hf, hle⟩ := next_le hm he
  rcases hle with rfl | hlt
  · exact ne_gt_of_next hf
  · rw [hp (hS f (mem_of_next hf)) (hS e (mem_of_mem_above he)) hlt (ne_gt_of_next hf)]
    exact Ordering.noConfusion

/-- What lies before the place of the lookup is passed. -/
theorem gt_of_mem_below (he : e ∈ below cmp p m t) : cmp p e.1 = .gt := by
  have hbefore : ∀ {f}, f ∈ m → cmp e.1 f.1 = .lt → cmp p f.1 ≠ .lt → cmp p e.1 = .gt :=
    fun hf hlt hne => by_contra fun hgt => hne (hp (hS e (mem_of_mem_below he)) (hS _ hf) hlt hgt)
  rcases stopsAt cmp p m t with ⟨f, hf, heq⟩ | ⟨hgt, -⟩
  · refine hbefore (mem_of_next hf) ?_ (by rw [heq]; exact Ordering.noConfusion)
    exact (sorted_split hm).2.2 e he f (mem_of_mem_head? hf)
  · obtain ⟨f, hf, hle⟩ := le_nextBack hm he
    rcases hle with rfl | hlt
    · exact hgt e hf
    · exact hbefore (mem_of_nextBack hf) hlt (by rw [hgt f hf]; exact Ordering.noConfusion)

/-- **The entries passed** are those that the sought key is greater than. -/
theorem mem_below_iff : e ∈ below cmp p m t ↔ e ∈ m ∧ cmp p e.1 = .gt := by
  refine ⟨fun he => ⟨mem_of_mem_below he, gt_of_mem_below hm hS hp he⟩, fun ⟨he, hgt⟩ => ?_⟩
  rw [← below_append_above cmp p m t, mem_append] at he
  exact he.resolve_right fun habove => ne_gt_of_mem_above hm hS hp habove hgt

/-- The entries not passed are all that follow. -/
theorem mem_above_iff : e ∈ above cmp p m t ↔ e ∈ m ∧ cmp p e.1 ≠ .gt := by
  refine ⟨fun he => ⟨mem_of_mem_above he, ne_gt_of_mem_above hm hS hp he⟩, fun ⟨he, hne⟩ => ?_⟩
  rw [← below_append_above cmp p m t, mem_append] at he
  exact he.resolve_left fun hbelow => hne (gt_of_mem_below hm hS hp hbelow)

/-- Some entry is passed: the last one passed is found, and is not before it. -/
theorem exists_nextBack (he : e ∈ m) (hgt : cmp p e.1 = .gt) :
    ∃ f, nextBack cmp p m t = some f ∧ cmp p f.1 = .gt ∧ (e = f ∨ cmp e.1 f.1 = .lt) := by
  obtain ⟨f, hf, hle⟩ := le_nextBack (t := t) hm ((mem_below_iff hm hS hp).mpr ⟨he, hgt⟩)
  exact ⟨f, hf, gt_of_mem_below hm hS hp (mem_of_mem_getLast? hf), hle⟩

/-- Some entry is not passed: the lookup stops, and not after it. -/
theorem exists_next (he : e ∈ m) (hne : cmp p e.1 ≠ .gt) :
    ∃ f, next cmp p m t = some f ∧ cmp p f.1 ≠ .gt ∧ (f = e ∨ cmp f.1 e.1 = .lt) := by
  obtain ⟨f, hf, hle⟩ := next_le (t := t) hm ((mem_above_iff hm hS hp).mpr ⟨he, hne⟩)
  exact ⟨f, hf, ne_gt_of_next hf, hle⟩

/-- **The entry of a key** is the one the comparison calls equal. -/
theorem entry_eq_some_iff : entry cmp p m t = some e ↔ e ∈ m ∧ cmp p e.1 = .eq := by
  refine ⟨mem_of_entry, fun ⟨he, heq⟩ => ?_⟩
  obtain ⟨f, hf, hne, hle⟩ := exists_next (t := t) hm hS hp he (by simp [heq])
  rcases hle with rfl | hlt
  · exact entry_of_next hf heq
  · have := hp (hS f (mem_of_next hf)) (hS e he) hlt hne
    rw [heq] at this
    contradiction

end Probes

/-- The entry of a key of the set. -/
theorem entry_eq_some_iff_mem (hord : OrderOn cmp S) (hk : k ∈ S) :
    entry cmp k m t = some e ↔ e ∈ m ∧ e.1 = k := by
  rw [entry_eq_some_iff hm hS (hord.probe hk)]
  refine and_congr_right fun he => ?_
  rw [hord.eq_iff hk (hS e he), eq_comm]

/-- When a key is not found. -/
theorem entry_eq_none_iff (hord : OrderOn cmp S) (hk : k ∈ S) :
    entry cmp k m t = none ↔ ∀ e ∈ m, e.1 ≠ k := by
  rw [eq_none_iff_forall_ne_some]
  simp only [Ne, entry_eq_some_iff_mem hm hS hord hk, not_and]

theorem entryKey_eq (hord : OrderOn cmp S) (hk : k ∈ S) : entryKey cmp k m t = k := by
  rw [entryKey]
  cases he : entry cmp k m t with
  | none => rfl
  | some e => exact ((entry_eq_some_iff_mem hm hS hord hk).mp he).2

/-! #### Updates -/

/-- A new key keeps the order. -/
theorem sorted_insert (hord : OrderOn cmp S) (hk : k ∈ S) (hnew : ∀ e ∈ m, e.1 ≠ k) :
    Sorted cmp (insert cmp k v m t) := by
  obtain ⟨hbelow, habove, hcross⟩ := sorted_split (p := k) (t := t) hm
  have hlt : ∀ e ∈ below cmp k m t, cmp e.1 k = .lt := fun e he =>
    hord.lt_of_gt hk (hS e (mem_of_mem_below he)) (gt_of_mem_below hm hS (hord.probe hk) he)
  have hgt : ∀ e ∈ above cmp k m t, cmp k e.1 = .lt := by
    intro e he
    obtain ⟨hem, hne⟩ := (mem_above_iff hm hS (hord.probe hk)).mp he
    cases hc : cmp k e.1 with
    | lt => rfl
    | eq => exact absurd ((hord.eq_iff hk (hS e hem)).mp hc).symm (hnew e hem)
    | gt => exact absurd hc hne
  refine pairwise_append.mpr ⟨hbelow, pairwise_cons.mpr ⟨hgt, habove⟩, ?_⟩
  intro e he e' he'
  rcases mem_cons.mp he' with rfl | he'
  · exact hlt e he
  · exact hcross e he e' he'

/-- The entry of a key and what stands around it. -/
theorem above_eq_cons (hord : OrderOn cmp S) (he : (k, v) ∈ m) :
    ∃ r, above cmp k m t = (k, v) :: r ∧ ∀ e ∈ below cmp k m t ++ r, e.1 ≠ k := by
  have hk := hS _ he
  obtain ⟨r, hr⟩ := List.head?_eq_some_iff.mp
    (eq_some_of_filter_eq_some ((entry_eq_some_iff_mem hm hS hord hk).mpr ⟨he, rfl⟩))
  refine ⟨r, hr, fun e hmem heq => ?_⟩
  have habove := (sorted_split (p := k) (t := t) hm).2.1
  rw [hr] at habove
  have hself : cmp k k = .eq := (hord.eq_iff hk hk).mpr rfl
  rcases mem_append.mp hmem with hmem | hmem
  · have := gt_of_mem_below hm hS (hord.probe hk) hmem
    rw [heq, hself] at this
    contradiction
  · have := rel_of_pairwise_cons habove hmem
    rw [heq, hself] at this
    contradiction

/-- A removal takes one entry. -/
theorem mem_remove (hord : OrderOn cmp S) (he : (k, v) ∈ m) :
    e ∈ remove cmp k m t ↔ e ∈ m ∧ e.1 ≠ k := by
  obtain ⟨r, hr, hne⟩ := above_eq_cons hm hS hord he
  have hmem : e ∈ m ↔ e ∈ below cmp k m t ++ r ∨ e = (k, v) := by
    conv_lhs => rw [← below_append_above cmp k m t, hr]
    simp only [mem_append, mem_cons]
    tauto
  rw [remove, hr, tail_cons, hmem]
  refine ⟨fun h => ⟨.inl h, hne e h⟩, fun ⟨h, hk⟩ => h.resolve_right ?_⟩
  rintro rfl
  exact hk rfl

/-- A replacement takes the place of one entry. -/
theorem mem_replace (hord : OrderOn cmp S) {w : V} (he : (k, w) ∈ m) :
    e ∈ replace cmp k v m t ↔ e = (k, v) ∨ e ∈ m ∧ e.1 ≠ k := by
  rw [← mem_remove hm hS hord he]
  obtain ⟨r, hr, -⟩ := above_eq_cons hm hS hord he
  rw [replace, remove, hr, modifyHead_cons, tail_cons]
  simp only [mem_append, mem_cons]
  tauto

end Ordered

theorem mem_insert : e ∈ insert cmp k v m t ↔ e = (k, v) ∨ e ∈ m := by
  conv_rhs => rw [← below_append_above cmp k m t]
  simp only [insert, mem_append, mem_cons]
  tauto

theorem sorted_remove (hm : Sorted cmp m) : Sorted cmp (remove cmp k m t) := by
  have hsub : (remove cmp k m t).Sublist (below cmp k m t ++ above cmp k m t) :=
    List.Sublist.append_left (tail_sublist _) _
  rw [below_append_above] at hsub
  exact hm.sublist hsub

/-- A replacement keeps the keys. -/
theorem replace_keys : (replace cmp k v m t).map Prod.fst = m.map Prod.fst := by
  conv_rhs => rw [← below_append_above cmp k m t]
  rw [replace, map_append, map_append]
  cases above cmp k m t <;> rfl

theorem sorted_iff_keys : Sorted cmp m ↔ (m.map Prod.fst).Pairwise fun k k' => cmp k k' = .lt := by
  rw [pairwise_map]
  exact Iff.rfl

theorem sorted_replace (hm : Sorted cmp m) : Sorted cmp (replace cmp k v m t) := by
  rw [sorted_iff_keys, replace_keys]
  exact sorted_iff_keys.mp hm

/-! ### Keys that are equal to several

A key may be called equal to several keys of the map, which need not be neighbours. Every search
ends at one of them when there is one between any two keys that are less and greater. -/

/-- Between a key that `p` is greater than and one that `p` is less than, as far as there are such,
stands a key that `p` is equal to. -/
def Caught (cmp : K → K → Ordering) (S : Set K) (p : K) : Prop :=
  ∀ lo hi : Option K, (∀ k ∈ lo, k ∈ S ∧ cmp p k = .gt) → (∀ k ∈ hi, k ∈ S ∧ cmp p k = .lt) →
    (∀ k ∈ lo, ∀ k' ∈ hi, cmp k k' = .lt) →
      ∃ q ∈ S, cmp p q = .eq ∧ (∀ k ∈ lo, cmp k q = .lt) ∧ ∀ k ∈ hi, cmp q k = .lt

/-- **Every search ends at an equal key.** -/
theorem Caught.exists_entry (h : Caught cmp S p) (hord : OrderOn cmp S) (hm : Sorted cmp m)
    (hS : ∀ k, k ∈ S ↔ ∃ v, (k, v) ∈ m) (t : Search) : ∃ e, entry cmp p m t = some e := by
  have hkeys : KeysIn S m := fun e he => (hS e.1).mpr ⟨e.2, he⟩
  rcases stopsAt cmp p m t with ⟨e, he, heq⟩ | ⟨hgt, hlt⟩
  · exact ⟨e, entry_of_next he heq⟩
  exfalso
  -- an equal key would stand strictly between two neighbours
  have hbetween := h ((nextBack cmp p m t).map Prod.fst) ((next cmp p m t).map Prod.fst) ?_ ?_ ?_
  · obtain ⟨q, hq, -, hlo, hhi⟩ := hbetween
    obtain ⟨v, hv⟩ := (hS q).mp hq
    have hnot : ∀ {a}, a ∈ S → cmp q a = .lt → cmp a q ≠ .lt := fun ha hqa haq => by
      rw [hord.swap hq ha, hqa] at haq
      contradiction
    have hself : cmp q q = .eq := (hord.eq_iff hq hq).mpr rfl
    rw [← below_append_above cmp p m t, mem_append] at hv
    rcases hv with hv | hv
    · obtain ⟨f, hf, hle⟩ := le_nextBack hm hv
      have hfq := hlo f.1 (by rw [hf]; rfl)
      rcases hle with rfl | hqf
      · simp [hself] at hfq
      · exact hnot (hkeys f (mem_of_nextBack hf)) hqf hfq
    · obtain ⟨f, hf, hle⟩ := next_le hm hv
      have hqf := hhi f.1 (by rw [hf]; rfl)
      rcases hle with rfl | hfq
      · simp [hself] at hqf
      · exact hnot (hkeys f (mem_of_next hf)) hqf hfq
  · intro k hk
    obtain ⟨e, he, rfl⟩ := map_eq_some_iff.mp hk
    exact ⟨hkeys e (mem_of_nextBack he), hgt e he⟩
  · intro k hk
    obtain ⟨e, he, rfl⟩ := map_eq_some_iff.mp hk
    exact ⟨hkeys e (mem_of_next he), hlt e he⟩
  · intro k hk k' hk'
    obtain ⟨e, he, rfl⟩ := map_eq_some_iff.mp hk
    obtain ⟨e', he', rfl⟩ := map_eq_some_iff.mp hk'
    exact (sorted_split hm).2.2 e (mem_of_mem_getLast? he) e' (mem_of_mem_head? he')

/-- Ordered keys that `p` is greater than come before those that it is not. -/
theorem OrderOn.lt_of_gt_of_ne (h : OrderOn cmp S) (hcmp : StrictCmp cmp) (ha : a ∈ S) (hb : b ∈ S)
    (hpa : cmp p a = .gt) (hpb : cmp p b ≠ .gt) : cmp a b = .lt := by
  cases hab : cmp a b with
  | lt => rfl
  | eq => exact absurd ((h.eq_iff ha hb).mp hab ▸ hpa) hpb
  | gt => exact absurd (hcmp.gt_of_lt (hcmp.trans (hcmp.lt_of_gt hab) (hcmp.lt_of_gt hpa))) hpb

/-- Ordered keys that `p` is less than come after those that it is not. -/
theorem OrderOn.lt_of_ne_of_lt (h : OrderOn cmp S) (hcmp : StrictCmp cmp) (ha : a ∈ S) (hb : b ∈ S)
    (hpa : cmp p a ≠ .lt) (hpb : cmp p b = .lt) : cmp a b = .lt := by
  cases hab : cmp a b with
  | lt => rfl
  | eq => exact absurd ((h.eq_iff ha hb).mp hab ▸ hpb) hpa
  | gt => exact absurd (hcmp.trans hpb (hcmp.lt_of_gt hab)) hpa

/-- One equal key is enough when the comparison is not by components. -/
theorem Caught.of_mem (hord : OrderOn cmp S) (hcmp : StrictCmp cmp) (hk : k ∈ S)
    (heq : cmp p k = .eq) : Caught cmp S p := by
  intro lo hi hlo hhi _
  refine ⟨k, hk, heq, fun a ha => ?_, fun a ha => ?_⟩
  · exact hord.lt_of_gt_of_ne hcmp (hlo a ha).1 hk (hlo a ha).2 (by simp [heq])
  · exact hord.lt_of_ne_of_lt hcmp hk (hhi a ha).1 (by simp [heq]) (hhi a ha).2

/-- The second component of a pair, if the first one is `a`. -/
private theorem exists_slice (a : A) (o : Option (A × B)) :
    ∃ o' : Option B, ∀ b, b ∈ o' ↔ (a, b) ∈ o := by
  by_cases h : ∃ b, o = some (a, b)
  · obtain ⟨b, rfl⟩ := h
    exact ⟨some b, by simp⟩
  · exact ⟨none, fun b => iff_of_false (by simp) fun hb => h ⟨b, hb⟩⟩

/-- **A pair is caught** when its first component is equal to some, and its second one is caught
among the keys of each of these. -/
theorem Caught.lex {c : A → A → Ordering} {c' : B → B → Ordering} {s : Set A} {S : Set (A × B)}
    {p : A × B} (hord : OrderOn c s) (hcmp : StrictCmp c) (hS : ∀ x ∈ S, x.1 ∈ s)
    (hne : ∃ a ∈ s, c p.1 a = .eq)
    (hslice : ∀ a ∈ s, c p.1 a = .eq → Caught c' {b | (a, b) ∈ S} p.2) :
    Caught (lexCmp c c') S p := by
  intro lo hi hlo hhi hlohi
  -- the first component of the key: one of the bounds may leave no choice
  obtain ⟨a, ha, hpa, hlo', hhi'⟩ : ∃ a ∈ s, c p.1 a = .eq ∧
      (∀ x ∈ lo, c x.1 a = .lt ∨ x.1 = a) ∧ ∀ y ∈ hi, c a y.1 = .lt ∨ y.1 = a := by
    by_cases h₁ : ∃ x ∈ lo, c p.1 x.1 = .eq
    · obtain ⟨x, hx, hpx⟩ := h₁
      refine ⟨x.1, hS x (hlo x hx).1, hpx, fun k hk => .inr ?_, fun y hy => ?_⟩
      · rw [some.inj (hk.symm.trans hx)]
      · refine (lexCmp_eq_lt.mp (hlohi x hx y hy)).imp_right fun h => ?_
        exact ((hord.eq_iff (hS x (hlo x hx).1) (hS y (hhi y hy).1)).mp h.1).symm
    have hgt : ∀ x ∈ lo, c p.1 x.1 = .gt := fun x hx =>
      (lexCmp_eq_gt.mp (hlo x hx).2).resolve_right fun h => h₁ ⟨x, hx, h.1⟩
    by_cases h₂ : ∃ y ∈ hi, c p.1 y.1 = .eq
    · obtain ⟨y, hy, hpy⟩ := h₂
      refine ⟨y.1, hS y (hhi y hy).1, hpy, fun x hx => .inl ?_, fun k hk => .inr ?_⟩
      · exact hord.lt_of_gt_of_ne hcmp (hS x (hlo x hx).1) (hS y (hhi y hy).1) (hgt x hx)
          (by simp [hpy])
      · rw [some.inj (hk.symm.trans hy)]
    · obtain ⟨a, ha, hpa⟩ := hne
      refine ⟨a, ha, hpa, fun x hx => .inl ?_, fun y hy => .inl ?_⟩
      · exact hord.lt_of_gt_of_ne hcmp (hS x (hlo x hx).1) ha (hgt x hx) (by simp [hpa])
      · have hlt : c p.1 y.1 = .lt :=
          (lexCmp_eq_lt.mp (hhi y hy).2).resolve_right fun h => h₂ ⟨y, hy, h.1⟩
        exact hord.lt_of_ne_of_lt hcmp ha (hS y (hhi y hy).1) (by simp [hpa]) hlt
  have haa : c a a = .eq := (hord.eq_iff ha ha).mpr rfl
  obtain ⟨lo₂, hlo₂⟩ := exists_slice a lo
  obtain ⟨hi₂, hhi₂⟩ := exists_slice a hi
  have hcaught := hslice a ha hpa lo₂ hi₂ ?_ ?_ ?_
  · obtain ⟨b, hb, hpb, hlob, hbhi⟩ := hcaught
    refine ⟨(a, b), hb, lexCmp_eq_eq.mpr ⟨hpa, hpb⟩, fun x hx => ?_, fun y hy => ?_⟩
    · rcases hlo' x hx with hlt | rfl
      · exact lexCmp_eq_lt.mpr (.inl hlt)
      · exact lexCmp_eq_lt.mpr (.inr ⟨haa, hlob x.2 ((hlo₂ _).mpr hx)⟩)
    · rcases hhi' y hy with hlt | rfl
      · exact lexCmp_eq_lt.mpr (.inl hlt)
      · exact lexCmp_eq_lt.mpr (.inr ⟨haa, hbhi y.2 ((hhi₂ _).mpr hy)⟩)
  · intro b hb
    obtain ⟨hmem, hgt⟩ := hlo _ ((hlo₂ b).mp hb)
    rw [lexCmp, hpa] at hgt
    exact ⟨hmem, hgt⟩
  · intro b hb
    obtain ⟨hmem, hlt⟩ := hhi _ ((hhi₂ b).mp hb)
    rw [lexCmp, hpa] at hlt
    exact ⟨hmem, hlt⟩
  · intro b hb b' hb'
    have hlt := hlohi _ ((hlo₂ b).mp hb) _ ((hhi₂ b').mp hb')
    rw [lexCmp, haa] at hlt
    exact hlt

/-! ### Sets

A set is a map without values. -/

section Sets

variable {m : List (K × Unit)} {k' : K}

/-- `insert` of a set, which tells whether the key is a new one. -/
def add (cmp : K → K → Ordering) (k : K) (m : List (K × Unit)) : List (K × Unit) × Bool :=
  match entry cmp k m with
  | some _ => (m, false)
  | none => (insert cmp k () m, true)

/-- `remove` of a set, which tells whether the key was there. -/
def discard (cmp : K → K → Ordering) (k : K) (m : List (K × Unit)) : List (K × Unit) × Bool :=
  match entry cmp k m with
  | some _ => (remove cmp k m, true)
  | none => (m, false)

/-- A key that is not in the set. -/
theorem add_spec (hord : OrderOn cmp Set.univ) (hm : Sorted cmp m) (hk : (k, ()) ∉ m) :
    ∃ m', add cmp k m = (m', true) ∧ Sorted cmp m' ∧
      ∀ k', (k', ()) ∈ m' ↔ k' = k ∨ (k', ()) ∈ m := by
  have hS : KeysIn Set.univ m := fun _ _ => trivial
  have hnew : ∀ e ∈ m, e.1 ≠ k := by
    rintro e he rfl
    exact hk he
  refine ⟨insert cmp k () m, ?_, sorted_insert hm hS hord trivial hnew, fun k' => ?_⟩
  · rw [add, (entry_eq_none_iff hm hS hord trivial).mpr hnew]
  · rw [mem_insert, Prod.mk.injEq, and_iff_left rfl]

/-- Whatever the order of the set, a key is in it after it was added. -/
theorem mem_add (hcmp : ∀ {a}, cmp k a = .eq → a = k) :
    (k', ()) ∈ (add cmp k m).1 ↔ k' = k ∨ (k', ()) ∈ m := by
  rw [add]
  cases he : entry cmp k m with
  | none => rw [mem_insert, Prod.mk.injEq, and_iff_left rfl]
  | some e =>
    obtain ⟨hmem, heq⟩ := mem_of_entry he
    refine ⟨.inr, fun h => h.elim ?_ id⟩
    rintro rfl
    rwa [← hcmp heq]

/-- A key that is in the set. -/
theorem discard_spec (hord : OrderOn cmp Set.univ) (hm : Sorted cmp m) (hk : (k, ()) ∈ m) :
    ∃ m', discard cmp k m = (m', true) ∧ Sorted cmp m' ∧
      ∀ k', (k', ()) ∈ m' ↔ (k', ()) ∈ m ∧ k' ≠ k := by
  have hS : KeysIn Set.univ m := fun _ _ => trivial
  refine ⟨remove cmp k m, ?_, sorted_remove hm, fun k' => mem_remove hm hS hord hk⟩
  rw [discard, (entry_eq_some_iff_mem hm hS hord trivial).mpr ⟨hk, rfl⟩]

end Sets

/-! ### Maps of sets

The values are sets, as lists without an order that matters; a key whose set runs empty is
removed. -/

section Multi

variable {m : List (K × List V)} {k' : K} {v' : V} [DecidableEq V]

/-- `v` is in the set of `k`. -/
def Holds (m : List (K × List V)) (k : K) (v : V) : Prop := ∃ s, (k, s) ∈ m ∧ v ∈ s

/-- Adds `v` to the set of `k`, and tells whether it was not there. -/
def addTo (cmp : K → K → Ordering) (k : K) (v : V) (m : List (K × List V))
    (t : Search := .scan) : List (K × List V) × Bool :=
  match entry cmp k m t with
  | some (_, s) => if v ∈ s then (m, false) else (replace cmp k (v :: s) m t, true)
  | none => (insert cmp k [v] m t, true)

/-- Removes `v` from the set of `k`, and tells whether it was there; `none` if `k` has no set. -/
def dropFrom (cmp : K → K → Ordering) (k : K) (v : V) (m : List (K × List V))
    (t : Search := .scan) : Option (List (K × List V) × Bool) :=
  match entry cmp k m t with
  | some (_, s) =>
    let s' := s.filter (· ≠ v)
    some (if s' = [] then remove cmp k m t else replace cmp k s' m t, decide (v ∈ s))
  | none => none

/-- The keys are in order and lie in `S`, and no set is empty. -/
structure MultiOk (cmp : K → K → Ordering) (S : Set K) (m : List (K × List V)) : Prop where
  sorted : Sorted cmp m
  keysIn : KeysIn S m
  ne_nil : ∀ e ∈ m, e.2 ≠ []

omit [DecidableEq V] in
/-- A key has one set. -/
theorem MultiOk.unique (hord : OrderOn cmp S) (h : MultiOk cmp S m) {s s' : List V}
    (hs : (k, s) ∈ m) (hs' : (k, s') ∈ m) : s = s' := by
  have he : ∀ {s}, (k, s) ∈ m → entry cmp k m = some (k, s) := fun hs =>
    (entry_eq_some_iff_mem h.sorted h.keysIn hord (h.keysIn _ hs)).mpr ⟨hs, rfl⟩
  exact congrArg Prod.snd (some.inj ((he hs).symm.trans (he hs')))

omit [DecidableEq V] in
/-- What is held under a key. -/
theorem MultiOk.holds_iff (hord : OrderOn cmp S) (h : MultiOk cmp S m) {s : List V}
    (hs : (k, s) ∈ m) : Holds m k v ↔ v ∈ s := by
  refine ⟨fun ⟨s', hs', hv⟩ => ?_, fun hv => ⟨s, hs, hv⟩⟩
  rwa [h.unique hord hs hs']

omit [DecidableEq V] in
/-- The key `k` is given the set `t`, and the other keys keep theirs. -/
theorem MultiOk.put {m' : List (K × List V)} {t : List V} (h : MultiOk cmp S m)
    (hm' : Sorted cmp m') (hk : k ∈ S) (ht : t ≠ [])
    (hmem : ∀ {e}, e ∈ m' ↔ e = (k, t) ∨ e ∈ m ∧ e.1 ≠ k) :
    MultiOk cmp S m' ∧ ∀ k' v', Holds m' k' v' ↔ k' = k ∧ v' ∈ t ∨ k' ≠ k ∧ Holds m k' v' := by
  refine ⟨⟨hm', fun e he => ?_, fun e he => ?_⟩, fun k' v' => ⟨?_, ?_⟩⟩
  · rcases hmem.mp he with rfl | ⟨he, -⟩
    · exact hk
    · exact h.keysIn e he
  · rcases hmem.mp he with rfl | ⟨he, -⟩
    · exact ht
    · exact h.ne_nil e he
  · rintro ⟨s, hs, hv⟩
    rcases hmem.mp hs with heq | ⟨hs, hne⟩
    · obtain ⟨rfl, rfl⟩ := Prod.mk.injEq .. |>.mp heq
      exact .inl ⟨rfl, hv⟩
    · exact .inr ⟨hne, s, hs, hv⟩
  · rintro (⟨rfl, hv⟩ | ⟨hne, s, hs, hv⟩)
    · exact ⟨t, hmem.mpr (.inl rfl), hv⟩
    · exact ⟨s, hmem.mpr (.inr ⟨hs, hne⟩), hv⟩

/-- **Adding to a set.** -/
theorem addTo_spec (hord : OrderOn cmp S) (h : MultiOk cmp S m) (hk : k ∈ S)
    (hnew : ¬ Holds m k v) :
    ∃ m', addTo cmp k v m t = (m', true) ∧ MultiOk cmp S m' ∧
      ∀ k' v', Holds m' k' v' ↔ Holds m k' v' ∨ k' = k ∧ v' = v := by
  rw [addTo]
  cases he : entry cmp k m t with
  | some e =>
    obtain ⟨k₀, s⟩ := e
    obtain ⟨hmem, rfl⟩ := (entry_eq_some_iff_mem h.sorted h.keysIn hord hk).mp he
    have hs : ∀ {v'}, Holds m k₀ v' ↔ v' ∈ s := h.holds_iff hord hmem
    obtain ⟨hok, hholds⟩ := h.put (sorted_replace h.sorted) hk (cons_ne_nil v s)
      (mem_replace h.sorted h.keysIn hord hmem)
    refine ⟨_, if_neg (hs.not.mp hnew), hok, fun k' v' => ?_⟩
    rw [hholds, mem_cons]
    by_cases hk' : k' = k₀
    · subst hk'
      simp only [hs, true_and, ne_eq, not_true, false_and, or_false]
      exact or_comm
    · simp only [hk', false_and, ne_eq, not_false_iff, true_and, false_or, or_false]
  | none =>
    have hfree := (entry_eq_none_iff h.sorted h.keysIn hord hk).mp he
    obtain ⟨hok, hholds⟩ := h.put (sorted_insert h.sorted h.keysIn hord hk hfree) hk
      (cons_ne_nil v []) fun {e} => mem_insert.trans
        (or_congr_right (and_iff_left_of_imp (hfree e)).symm)
    refine ⟨_, rfl, hok, fun k' v' => ?_⟩
    rw [hholds, mem_singleton]
    by_cases hk' : k' = k
    · subst hk'
      have hnone : ¬ Holds m k' v' := fun ⟨s, hs, _⟩ => hfree _ hs rfl
      simp only [hnone, true_and, ne_eq, not_true, false_and, or_false, false_or]
    · simp only [hk', false_and, ne_eq, not_false_iff, true_and, false_or, or_false]

/-- **Removing from a set.** -/
theorem dropFrom_spec (hord : OrderOn cmp S) (h : MultiOk cmp S m) (hv : Holds m k v) :
    ∃ m', dropFrom cmp k v m t = some (m', true) ∧ MultiOk cmp S m' ∧
      ∀ k' v', Holds m' k' v' ↔ Holds m k' v' ∧ ¬ (k' = k ∧ v' = v) := by
  obtain ⟨s, hmem, hvs⟩ := hv
  have hk := h.keysIn _ hmem
  have hs : ∀ {v'}, Holds m k v' ↔ v' ∈ s := h.holds_iff hord hmem
  rw [dropFrom, (entry_eq_some_iff_mem h.sorted h.keysIn hord hk).mpr ⟨hmem, rfl⟩]
  refine ⟨_, congrArg some (Prod.ext rfl (decide_eq_true hvs)), ?_⟩
  split
  case isTrue hnil =>
    have hrem : ∀ {e}, e ∈ remove cmp k m t ↔ e ∈ m ∧ e.1 ≠ k :=
      mem_remove h.sorted h.keysIn hord hmem
    refine ⟨⟨sorted_remove h.sorted, fun e he => h.keysIn e (hrem.mp he).1,
      fun e he => h.ne_nil e (hrem.mp he).1⟩, fun k' v' => ?_⟩
    -- `v` was the only one
    have honly : ∀ v' ∈ s, v' = v := fun v' hv' => by
      by_contra hne
      exact filter_eq_nil_iff.mp hnil v' hv' (decide_eq_true hne)
    refine ⟨fun ⟨t, ht, hv'⟩ => ?_, fun ⟨⟨t, ht, hv'⟩, hne⟩ => ?_⟩
    · obtain ⟨ht, hk'⟩ := hrem.mp ht
      exact ⟨⟨t, ht, hv'⟩, fun heq => hk' heq.1⟩
    · refine ⟨t, hrem.mpr ⟨ht, fun hk' => ?_⟩, hv'⟩
      obtain rfl : k' = k := hk'
      exact hne ⟨rfl, honly v' (hs.mp ⟨t, ht, hv'⟩)⟩
  case isFalse hne =>
    obtain ⟨hok, hholds⟩ := h.put (sorted_replace h.sorted) hk hne
      (mem_replace h.sorted h.keysIn hord hmem)
    refine ⟨hok, fun k' v' => ?_⟩
    rw [hholds, mem_filter, decide_eq_true_iff]
    by_cases hk' : k' = k
    · subst hk'
      simp only [hs, true_and, ne_eq, not_true, false_and, or_false]
    · simp only [hk', false_and, ne_eq, not_false_iff, true_and, false_or, and_true]

end Multi

end OrderedMap
