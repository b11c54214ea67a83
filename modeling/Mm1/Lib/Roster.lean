import Mathlib.Data.List.Nodup

/-!
# Rosters

A roster is a list of entries, in the order in which they were added, no two of them with the
same key. Entries are looked up by their key or by a condition on their value, and they are
changed in place.

* `lookup_push`, `lookup_put`, `lookup_modify`, `lookup_retain`, `lookup_filterMap`,
  `lookup_erase_eq_some`: what each operation does to every key;
* `find?_eq_some`, `find?_eq_none_iff`: the first entry whose value meets a condition;
* `insert?`: a slot map, which chooses the key of a new entry itself.
-/

/-- Entries in the order of their arrival, with distinct keys. -/
structure Roster (K V : Type*) where
  entries : List (K × V)
  nodup : (entries.map Prod.fst).Nodup

namespace Roster

open Option List

variable {K V : Type*}

/-- The roster without entries. -/
def empty : Roster K V := ⟨[], nodup_nil⟩

/-- The first entry whose value meets `p`. -/
def find? (r : Roster K V) (p : V → Bool) : Option (K × V) := r.entries.find? fun e => p e.2

/-- Keep the entries whose value meets `p`. -/
def retain (r : Roster K V) (p : V → Bool) : Roster K V where
  entries := r.entries.filter fun e => p e.2
  nodup := r.nodup.sublist (filter_sublist.map Prod.fst)

variable [DecidableEq K]

/-- The value of the entry with this key. -/
def lookup (r : Roster K V) (k : K) : Option V := (r.entries.find? fun e => e.1 = k).map Prod.snd

variable {r : Roster K V} {k k' : K} {v : V} {p : V → Bool} {f : V → V} {W : Type*}

theorem lookup_eq_some_iff : r.lookup k = some v ↔ (k, v) ∈ r.entries := by
  constructor
  · intro h
    obtain ⟨e, he, rfl⟩ := map_eq_some_iff.mp h
    obtain rfl : e.1 = k := by simpa using List.find?_some he
    exact mem_of_find?_eq_some he
  · intro h
    have hfind : ((r.entries.find? fun e => e.1 = k)).isSome :=
      List.find?_isSome.mpr ⟨(k, v), h, by simp⟩
    obtain ⟨e, he⟩ := isSome_iff_exists.mp hfind
    have hk : e.1 = k := by simpa using List.find?_some he
    have hev : e = (k, v) := inj_on_of_nodup_map r.nodup (mem_of_find?_eq_some he) h hk
    simp [lookup, he, hev]

theorem lookup_eq_none_iff : r.lookup k = none ↔ k ∉ r.entries.map Prod.fst := by
  simp only [lookup, map_eq_none_iff, List.find?_eq_none, decide_eq_true_eq, List.mem_map,
    not_exists, not_and]

theorem entries_eq_nil_iff : r.entries = [] ↔ ∀ k, r.lookup k = none := by
  rw [eq_nil_iff_forall_not_mem]
  constructor
  · intro h k
    rw [eq_none_iff_forall_ne_some]
    exact fun v hv => h (k, v) (lookup_eq_some_iff.mp hv)
  · intro h e he
    rw [← lookup_eq_some_iff (r := r) (k := e.1) (v := e.2), h] at he
    contradiction

/-- Add an entry at the end. -/
def push (r : Roster K V) (k : K) (v : V) (h : r.lookup k = none) : Roster K V where
  entries := r.entries ++ [(k, v)]
  nodup := by
    rw [map_append, nodup_append]
    refine ⟨r.nodup, nodup_singleton _, ?_⟩
    rintro a ha b hb rfl
    obtain rfl := mem_singleton.mp hb
    exact lookup_eq_none_iff.mp h ha

/-- Change the value of the entry with this key. -/
def modify (r : Roster K V) (k : K) (f : V → V) : Roster K V where
  entries := r.entries.map fun e => if e.1 = k then (e.1, f e.2) else e
  nodup := by
    have hfst : (r.entries.map fun e => if e.1 = k then (e.1, f e.2) else e).map Prod.fst =
        r.entries.map Prod.fst := by
      rw [List.map_map]
      refine List.map_congr_left fun e _ => ?_
      simp only [Function.comp_apply]
      split <;> rfl
    rw [hfst]
    exact r.nodup

@[simp] theorem lookup_empty : (empty : Roster K V).lookup k = none := rfl

theorem lookup_push (h : r.lookup k = none) :
    (r.push k v h).lookup k' = if k' = k then some v else r.lookup k' := by
  ext w
  rw [lookup_eq_some_iff, push, mem_append, ← lookup_eq_some_iff, mem_singleton, Prod.mk.injEq]
  split
  case isTrue hk => simp [hk, h, eq_comm]
  case isFalse hk => simp [hk]

/-- What is found after a change. -/
theorem lookup_modify :
    (r.modify k f).lookup k' = if k' = k then (r.lookup k').map f else r.lookup k' := by
  ext w
  rw [lookup_eq_some_iff, modify, List.mem_map]
  constructor
  · rintro ⟨⟨j, u⟩, hmem, he⟩
    rw [← lookup_eq_some_iff] at hmem
    by_cases hj : j = k
    · obtain ⟨rfl, rfl⟩ : j = k' ∧ f u = w := by simpa [hj] using he
      rw [if_pos hj, hmem, map_some]
    · obtain ⟨rfl, rfl⟩ : j = k' ∧ u = w := by simpa [hj] using he
      simpa [hj] using hmem
  · intro h
    split at h
    case isTrue hk =>
      obtain ⟨u, hu, rfl⟩ := map_eq_some_iff.mp h
      exact ⟨(k', u), lookup_eq_some_iff.mp hu, by simp [hk]⟩
    case isFalse hk => exact ⟨(k', w), lookup_eq_some_iff.mp h, by simp [hk]⟩

theorem isSome_lookup_modify (r : Roster K V) (k k' : K) (f : V → V) :
    ((r.modify k f).lookup k').isSome = (r.lookup k').isSome := by
  rw [lookup_modify]
  split
  · exact isSome_map
  · rfl

theorem lookup_modify_self (h : r.lookup k = some v) : (r.modify k f).lookup k = some (f v) := by
  rw [lookup_modify, if_pos rfl, h, map_some]

@[simp] theorem modify_id : r.modify k id = r := by
  have hmap : (r.entries.map fun e => if e.1 = k then (e.1, id e.2) else e) = r.entries :=
    map_id'' (fun e => by split <;> rfl) _
  cases r with
  | mk entries nodup =>
    rw [modify, mk.injEq]
    exact hmap

theorem lookup_retain : (r.retain p).lookup k = (r.lookup k).filter p := by
  ext w
  rw [lookup_eq_some_iff, retain, mem_filter, ← lookup_eq_some_iff, filter_eq_some_iff]

omit [DecidableEq K] in
theorem retain_retain : (r.retain p).retain p = r.retain p := by
  simp [retain, List.filter_filter]

theorem find?_eq_some {e : K × V} (h : r.find? p = some e) :
    r.lookup e.1 = some e.2 ∧ p e.2 = true := by
  rw [find?] at h
  have hp := List.find?_some h
  exact ⟨lookup_eq_some_iff.mpr (mem_of_find?_eq_some h), hp⟩

theorem find?_eq_none_iff : r.find? p = none ↔ ∀ k v, r.lookup k = some v → p v = false := by
  simp [find?, lookup_eq_some_iff]

/-- Change the value of the entry with this key, or add one. -/
def put (r : Roster K V) (k : K) (v : V) : Roster K V :=
  if h : r.lookup k = none then r.push k v h else r.modify k fun _ => v

theorem lookup_put : (r.put k v).lookup k' = if k' = k then some v else r.lookup k' := by
  rw [put]
  split
  case isTrue h => exact lookup_push h
  case isFalse h =>
    obtain ⟨w, hw⟩ := ne_none_iff_exists'.mp h
    rw [lookup_modify]
    split
    case isTrue hk => rw [hk, hw, map_some]
    case isFalse => rfl

omit [DecidableEq K] in
theorem fst_filterMap_sublist (f : V → Option W) (l : List (K × V)) :
    ((l.filterMap fun e => (f e.2).map fun w => (e.1, w)).map Prod.fst).Sublist
      (l.map Prod.fst) := by
  induction l with
  | nil => exact List.Sublist.slnil
  | cons e l ih =>
    cases hf : f e.2 with
    | none => simpa [filterMap_cons, hf] using ih.cons e.1
    | some w => simpa [filterMap_cons, hf] using ih

/-- Change every value, or drop the entry. -/
def filterMap {W : Type*} (r : Roster K V) (f : V → Option W) : Roster K W where
  entries := r.entries.filterMap fun e => (f e.2).map fun w => (e.1, w)
  nodup := r.nodup.sublist (fst_filterMap_sublist f r.entries)

theorem lookup_filterMap {f : V → Option W} : (r.filterMap f).lookup k = (r.lookup k).bind f := by
  ext w
  rw [lookup_eq_some_iff, filterMap, mem_filterMap, bind_eq_some_iff]
  constructor
  · rintro ⟨⟨j, v⟩, hmem, he⟩
    obtain ⟨u, hu, he⟩ := map_eq_some_iff.mp he
    obtain ⟨rfl, rfl⟩ := Prod.mk.inj he
    exact ⟨v, lookup_eq_some_iff.mpr hmem, hu⟩
  · rintro ⟨v, hv, hw⟩
    exact ⟨(k, v), lookup_eq_some_iff.mp hv, map_eq_some_iff.mpr ⟨w, hw, rfl⟩⟩

/-! ### Slot maps -/

/-- How a slot map chooses the key of a new value, given the keys that it holds. It may be full. -/
structure Slots (K : Type*) where
  next : List K → Option K
  /-- a new key is not one that the slot map holds -/
  fresh : ∀ {live : List K} {k : K}, next live = some k → k ∉ live

/-- `SlotMap::insert`, with the key of the new entry. -/
def insert? (r : Roster K V) (slots : Slots K) (v : V) : Option (K × Roster K V) :=
  match h : slots.next (r.entries.map Prod.fst) with
  | some k => some (k, r.push k v (lookup_eq_none_iff.mpr (slots.fresh h)))
  | none => none

theorem insert?_cases (r : Roster K V) (slots : Slots K) (v : V) :
    (slots.next (r.entries.map Prod.fst) = none ∧ r.insert? slots v = none) ∨
      ∃ k, ∃ hk : r.lookup k = none, slots.next (r.entries.map Prod.fst) = some k ∧
        r.insert? slots v = some (k, r.push k v hk) := by
  rw [insert?]
  split
  case h_1 k hnext => exact .inr ⟨k, lookup_eq_none_iff.mpr (slots.fresh hnext), hnext, rfl⟩
  case h_2 hnext => exact .inl ⟨hnext, rfl⟩

theorem insert?_eq_some {slots : Slots K} {r' : Roster K V} (h : r.insert? slots v = some (k, r')) :
    ∃ hk : r.lookup k = none, r' = r.push k v hk := by
  rcases r.insert?_cases slots v with ⟨-, hnone⟩ | ⟨j, hj, -, hsome⟩
  · rw [hnone] at h
    contradiction
  · obtain ⟨rfl, rfl⟩ := Prod.mk.inj (some.inj (hsome.symm.trans h))
    exact ⟨hj, rfl⟩

/-- Remove the entry with this key. -/
def erase (r : Roster K V) (k : K) : Roster K V where
  entries := r.entries.filter fun e => e.1 ≠ k
  nodup := r.nodup.sublist (filter_sublist.map Prod.fst)

theorem lookup_erase_eq_some : (r.erase k).lookup k' = some v ↔ k' ≠ k ∧ r.lookup k' = some v := by
  rw [lookup_eq_some_iff, lookup_eq_some_iff, erase, mem_filter, decide_eq_true_eq, and_comm]

theorem isSome_lookup_erase :
    ((r.erase k).lookup k').isSome = true ↔ k' ≠ k ∧ (r.lookup k').isSome = true := by
  simp only [isSome_iff_exists, lookup_erase_eq_some, exists_and_left]

/-- What is removed is one entry. -/
theorem perm_erase (h : r.lookup k = some v) : r.entries.Perm ((k, v) :: (r.erase k).entries) := by
  have hmem := lookup_eq_some_iff.mp h
  have hnodup : r.entries.Nodup := r.nodup.of_map Prod.fst
  refine (perm_ext_iff_of_nodup hnodup ?_).mpr fun e => ?_
  · refine nodup_cons.mpr ⟨?_, hnodup.filter _⟩
    simp [erase]
  · rw [mem_cons, erase, mem_filter, decide_eq_true_eq]
    constructor
    · intro he
      by_cases hk : e.1 = k
      · exact .inl (inj_on_of_nodup_map r.nodup he hmem hk)
      · exact .inr ⟨he, hk⟩
    · rintro (rfl | ⟨he, -⟩)
      · exact hmem
      · exact he

theorem erase_modify : (r.modify k f).erase k = r.erase k := by
  rw [erase, erase, mk.injEq, modify, List.filter_map]
  refine (List.map_congr_left fun e he => ?_).trans ((List.map_id _).trans ?_)
  · have hne : e.1 ≠ k := by
      intro heq
      simp [heq] at he
    exact if_neg hne
  · refine List.filter_congr fun e _ => ?_
    by_cases hk : e.1 = k <;> simp [hk]

/-- What is changed is one entry. -/
theorem perm_modify (h : r.lookup k = some v) :
    (r.modify k f).entries.Perm ((k, f v) :: (r.erase k).entries) := by
  have hperm := perm_erase (lookup_modify_self (f := f) h)
  rwa [erase_modify] at hperm

theorem map_modify {β : Type*} {g : V → β} (hg : ∀ v, g (f v) = g v) :
    (r.modify k f).entries.map (fun e => g e.2) = r.entries.map fun e => g e.2 := by
  rw [modify, List.map_map]
  refine List.map_congr_left fun e _ => ?_
  simp only [Function.comp_apply]
  split
  · exact hg e.2
  · rfl

end Roster
