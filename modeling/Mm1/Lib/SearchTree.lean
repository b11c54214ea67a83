import Mm1.Lib.OrderedMap

/-!
# Search trees under a comparison that is not an order

A binary tree of entries, searched by a comparison `cmp : K → K → Ordering` and by nothing else. The
comparison may call different keys equal, and this need not be transitive. It has to be a
`StrictCmp`: to be the same from both sides, and transitive where it tells keys apart. Intervals
that are compared by their position are an example.

Such a search still finds a key that is called equal if there is one, provided that the tree is in
order, that is, that the keys of the tree are told apart. Which one it finds when there are several
depends on the shape of the tree.

* `find?_isSome_iff`: what a search finds;
* `insert?_eq_none_iff`, `mem_insert?`, `sorted_insert?`: an insertion fails on a key that is
  called equal, and keeps the order otherwise;
* `erase?_find?`, `erase?_split`: a removal takes out the entry that a search finds.
-/

namespace SearchTree

open OrderedMap List

variable {K V : Type*}

/-- A binary tree of entries. -/
inductive Tree (K V : Type*) where
  | leaf
  | node (left : Tree K V) (key : K) (value : V) (right : Tree K V)
  deriving DecidableEq

namespace Tree

/-- The entries from left to right. -/
def toList : Tree K V → List (K × V)
  | leaf => []
  | node left key value right => left.toList ++ (key, value) :: right.toList

/-- Follows the comparison to an entry whose key is called equal. -/
def find? (cmp : K → K → Ordering) (k : K) : Tree K V → Option (K × V)
  | leaf => none
  | node left key value right =>
    match cmp k key with
    | .lt => left.find? cmp k
    | .eq => some (key, value)
    | .gt => right.find? cmp k

/-- Follows the comparison to a leaf and puts the entry there. -/
def insert? (cmp : K → K → Ordering) (k : K) (v : V) : Tree K V → Option (Tree K V)
  | leaf => some (node leaf k v leaf)
  | node left key value right =>
    match cmp k key with
    | .lt => (left.insert? cmp k v).map fun left => node left key value right
    | .eq => none
    | .gt => (right.insert? cmp k v).map fun right => node left key value right

/-- All entries of the first tree before all of the second. -/
def join : Tree K V → Tree K V → Tree K V
  | leaf, t => t
  | node left key value right, t => node left key value (right.join t)

/-- Follows the comparison to an entry whose key is called equal, and takes it out. -/
def erase? (cmp : K → K → Ordering) (k : K) : Tree K V → Option ((K × V) × Tree K V)
  | leaf => none
  | node left key value right =>
    match cmp k key with
    | .lt => (left.erase? cmp k).map fun (e, left) => (e, node left key value right)
    | .eq => some ((key, value), left.join right)
    | .gt => (right.erase? cmp k).map fun (e, right) => (e, node left key value right)

variable {cmp : K → K → Ordering} {t t' left right : Tree K V} {k key : K} {v value : V}
  {e e' : K × V}

@[simp] theorem toList_join : (t.join t').toList = t.toList ++ t'.toList := by
  induction t with
  | leaf => rfl
  | node left key value right _ ih => simp [join, toList, ih]

/-- The order of a node. -/
theorem sorted_node : Sorted cmp (node left key value right).toList ↔
    Sorted cmp left.toList ∧ Sorted cmp right.toList ∧ (∀ e ∈ left.toList, cmp e.1 key = .lt) ∧
      (∀ e ∈ right.toList, cmp key e.1 = .lt) ∧
        ∀ e ∈ left.toList, ∀ e' ∈ right.toList, cmp e.1 e'.1 = .lt := by
  simp only [Sorted, toList, pairwise_append, pairwise_cons, mem_cons]
  constructor
  · rintro ⟨hl, ⟨hkey, hr⟩, hcross⟩
    exact ⟨hl, hr, fun e he => hcross e he _ (.inl rfl), hkey,
      fun e he e' he' => hcross e he e' (.inr he')⟩
  · rintro ⟨hl, hr, hleft, hkey, hcross⟩
    refine ⟨hl, ⟨hkey, hr⟩, fun e he e' he' => ?_⟩
    rcases he' with rfl | he'
    · exact hleft e he
    · exact hcross e he e' he'

theorem mem_toList_node : e ∈ (node left key value right).toList ↔
    e ∈ left.toList ∨ e = (key, value) ∨ e ∈ right.toList := by
  rw [toList, mem_append, mem_cons]

/-- What a search that goes left leaves out is greater. -/
theorem lt_of_lt_key (h : StrictCmp cmp) (ht : Sorted cmp (node left key value right).toList)
    (hk : cmp k key = .lt) (he : e ∈ right.toList) : cmp k e.1 = .lt :=
  h.trans hk ((sorted_node.mp ht).2.2.2.1 e he)

/-- What a search that goes right leaves out is less. -/
theorem gt_of_gt_key (h : StrictCmp cmp) (ht : Sorted cmp (node left key value right).toList)
    (hk : cmp k key = .gt) (he : e ∈ left.toList) : cmp k e.1 = .gt :=
  h.gt_of_lt (h.trans ((sorted_node.mp ht).2.2.1 e he) (h.lt_of_gt hk))

/-! ### Searching -/

theorem find?_spec (hf : t.find? cmp k = some e) : e ∈ t.toList ∧ cmp k e.1 = .eq := by
  induction t with
  | leaf => simp [find?] at hf
  | node left key value right ihl ihr =>
    rw [mem_toList_node]
    rw [find?] at hf
    cases hc : cmp k key with
    | lt =>
      rw [hc] at hf
      exact (ihl hf).imp_left .inl
    | eq =>
      rw [hc] at hf
      obtain rfl := Option.some.inj hf
      exact ⟨.inr (.inl rfl), hc⟩
    | gt =>
      rw [hc] at hf
      exact (ihr hf).imp_left fun he => .inr (.inr he)

/-- **A key that is called equal is found**, if there is one. -/
theorem find?_isSome_iff (h : StrictCmp cmp) (ht : Sorted cmp t.toList) :
    (t.find? cmp k).isSome ↔ ∃ e ∈ t.toList, cmp k e.1 = .eq := by
  constructor
  · intro hsome
    obtain ⟨e, he⟩ := Option.isSome_iff_exists.mp hsome
    exact ⟨e, find?_spec he⟩
  · rintro ⟨e, he, heq⟩
    induction t with
    | leaf => simp [toList] at he
    | node left key value right ihl ihr =>
      obtain ⟨hl, hr, -⟩ := sorted_node.mp ht
      rw [mem_toList_node] at he
      rw [find?]
      cases hc : cmp k key with
      | lt =>
        rcases he with he | rfl | he
        · exact ihl hl he
        · simp [hc] at heq
        · simp [lt_of_lt_key h ht hc he] at heq
      | eq => rfl
      | gt =>
        rcases he with he | rfl | he
        · simp [gt_of_gt_key h ht hc he] at heq
        · simp [hc] at heq
        · exact ihr hr he

theorem find?_eq_none_iff (h : StrictCmp cmp) (ht : Sorted cmp t.toList) :
    t.find? cmp k = none ↔ ∀ e ∈ t.toList, cmp k e.1 ≠ .eq := by
  rw [← Option.not_isSome_iff_eq_none, find?_isSome_iff h ht]
  push Not
  rfl

/-! ### Inserting -/

/-- **An insertion fails** on the keys that a search finds. -/
theorem insert?_eq_none_iff : t.insert? cmp k v = none ↔ (t.find? cmp k).isSome := by
  induction t with
  | leaf => simp [insert?, find?]
  | node left key value right ihl ihr =>
    rw [insert?, find?]
    cases cmp k key with
    | lt => exact Option.map_eq_none_iff.trans ihl
    | eq => simp
    | gt => exact Option.map_eq_none_iff.trans ihr

/-- The entries after an insertion. -/
theorem mem_insert? (ht : t.insert? cmp k v = some t') :
    e ∈ t'.toList ↔ e = (k, v) ∨ e ∈ t.toList := by
  induction t generalizing t' with
  | leaf =>
    obtain rfl := Option.some.inj ht
    simp [toList]
  | node left key value right ihl ihr =>
    rw [insert?] at ht
    cases hc : cmp k key with
    | lt =>
      rw [hc] at ht
      obtain ⟨left', hl, rfl⟩ := Option.map_eq_some_iff.mp ht
      rw [mem_toList_node, mem_toList_node, ihl hl, or_assoc]
    | eq =>
      rw [hc] at ht
      contradiction
    | gt =>
      rw [hc] at ht
      obtain ⟨right', hr, rfl⟩ := Option.map_eq_some_iff.mp ht
      rw [mem_toList_node, mem_toList_node, ihr hr]
      simp only [or_left_comm]

/-- **An insertion keeps the order.** -/
theorem sorted_insert? (h : StrictCmp cmp) (hs : Sorted cmp t.toList)
    (ht : t.insert? cmp k v = some t') : Sorted cmp t'.toList := by
  induction t generalizing t' with
  | leaf =>
    obtain rfl := Option.some.inj ht
    exact pairwise_singleton _ _
  | node left key value right ihl ihr =>
    obtain ⟨hl, hr, hleft, hright, hcross⟩ := sorted_node.mp hs
    rw [insert?] at ht
    cases hc : cmp k key with
    | lt =>
      rw [hc] at ht
      obtain ⟨left', hl', rfl⟩ := Option.map_eq_some_iff.mp ht
      refine sorted_node.mpr ⟨ihl hl hl', hr, fun e he => ?_, hright, fun e he e' he' => ?_⟩
      · rcases (mem_insert? hl').mp he with rfl | he
        · exact hc
        · exact hleft e he
      · rcases (mem_insert? hl').mp he with rfl | he
        · exact lt_of_lt_key h hs hc he'
        · exact hcross e he e' he'
    | eq =>
      rw [hc] at ht
      contradiction
    | gt =>
      rw [hc] at ht
      obtain ⟨right', hr', rfl⟩ := Option.map_eq_some_iff.mp ht
      refine sorted_node.mpr ⟨hl, ihr hr hr', hleft, fun e he => ?_, fun e he e' he' => ?_⟩
      · rcases (mem_insert? hr').mp he with rfl | he
        · exact h.lt_of_gt hc
        · exact hright e he
      · rcases (mem_insert? hr').mp he' with rfl | he'
        · exact h.lt_of_gt (gt_of_gt_key h hs hc he)
        · exact hcross e he e' he'

/-! ### Removing -/

/-- A removal takes out the entry that a search finds. -/
theorem erase?_find? : (t.erase? cmp k).map Prod.fst = t.find? cmp k := by
  induction t with
  | leaf => rfl
  | node left key value right ihl ihr =>
    rw [erase?, find?]
    cases cmp k key with
    | lt => rw [Option.map_map, ← ihl]; rfl
    | eq => rfl
    | gt => rw [Option.map_map, ← ihr]; rfl

/-- **A removal leaves the other entries where they are.** -/
theorem erase?_split (ht : t.erase? cmp k = some (e, t')) :
    ∃ front back, t.toList = front ++ e :: back ∧ t'.toList = front ++ back := by
  induction t generalizing t' with
  | leaf => simp [erase?] at ht
  | node left key value right ihl ihr =>
    rw [erase?] at ht
    cases hc : cmp k key with
    | lt =>
      rw [hc] at ht
      obtain ⟨⟨e', left'⟩, hl, heq⟩ := Option.map_eq_some_iff.mp ht
      obtain ⟨rfl, rfl⟩ := Prod.mk.inj heq
      obtain ⟨front, back, hfront, hback⟩ := ihl hl
      exact ⟨front, back ++ (key, value) :: right.toList, by simp [toList, hfront],
        by simp [toList, hback]⟩
    | eq =>
      rw [hc] at ht
      obtain ⟨rfl, rfl⟩ := Prod.mk.inj (Option.some.inj ht)
      exact ⟨left.toList, right.toList, rfl, toList_join⟩
    | gt =>
      rw [hc] at ht
      obtain ⟨⟨e', right'⟩, hr, heq⟩ := Option.map_eq_some_iff.mp ht
      obtain ⟨rfl, rfl⟩ := Prod.mk.inj heq
      obtain ⟨front, back, hfront, hback⟩ := ihr hr
      exact ⟨left.toList ++ (key, value) :: front, back, by simp [toList, hfront],
        by simp [toList, hback]⟩

theorem sorted_erase? (hs : Sorted cmp t.toList) (ht : t.erase? cmp k = some (e, t')) :
    Sorted cmp t'.toList := by
  obtain ⟨front, back, hfront, hback⟩ := erase?_split ht
  rw [hfront] at hs
  rw [hback]
  exact hs.sublist ((sublist_cons_self e back).append_left front)

/-- The entry is gone and no other one is. -/
theorem mem_erase? (h : StrictCmp cmp) (hs : Sorted cmp t.toList)
    (ht : t.erase? cmp k = some (e, t')) : e' ∈ t'.toList ↔ e' ∈ t.toList ∧ e' ≠ e := by
  obtain ⟨front, back, hfront, hback⟩ := erase?_split ht
  rw [hfront] at hs ⊢
  rw [hback]
  obtain ⟨-, hcons, hcross⟩ := pairwise_append.mp hs
  -- a key is called equal to itself, so that the entry is not there twice
  have hself : ∀ a, cmp a a ≠ .lt := by
    intro a hlt
    have := h.gt_of_lt hlt
    simp [hlt] at this
  have hnot : e ∉ front ++ back := by
    intro he
    rcases mem_append.mp he with he | he
    · exact hself _ (hcross e he e mem_cons_self)
    · exact hself _ ((pairwise_cons.mp hcons).1 e he)
  constructor
  · intro he
    refine ⟨?_, fun heq => hnot (heq ▸ he)⟩
    exact ((sublist_cons_self e back).append_left front).subset he
  · rintro ⟨he, hne⟩
    rw [mem_append, mem_cons] at he
    rw [mem_append]
    exact he.imp_right fun he => he.resolve_left hne

end Tree

end SearchTree
