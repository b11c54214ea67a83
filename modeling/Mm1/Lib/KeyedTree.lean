import Mathlib.Data.List.Basic

/-!
# Trees with keys on their edges

A node has a value, and children under keys. A path is a list of keys.

* `getD_set`: a tree is a function of paths; storing a value changes it at one path;
* `sweep_eq`: a work list visits each node once, in some order, and then is empty;
* `values_subset_of_child?`: what is below a child is below its parent.
-/

/-- A tree with values of type `V` in its nodes and keys of type `K` on its edges. -/
inductive KeyedTree (K V : Type*) where
  | node (value : V) (children : List (K × KeyedTree K V))

namespace KeyedTree

open List

variable {K V β : Type*} {cs : List (K × KeyedTree K V)} {c : KeyedTree K V}

def value : KeyedTree K V → V
  | node value _ => value

def children : KeyedTree K V → List (K × KeyedTree K V)
  | node _ children => children

/-! ### Trees as functions of paths -/

section Paths

variable [DecidableEq K] {t : KeyedTree K V} {k : K}

/-- The child under a key. -/
def child? (t : KeyedTree K V) (k : K) : Option (KeyedTree K V) := t.children.lookup k

/-- Put a child under a key, in place of the one that is there. -/
def putChild (k : K) (c : KeyedTree K V) :
    List (K × KeyedTree K V) → List (K × KeyedTree K V)
  | [] => [(k, c)]
  | (k', c') :: rest => if k' = k then (k, c) :: rest else (k', c') :: putChild k c rest

/-- Store a value at a path; the nodes on the way that are missing are made with the value `d`. -/
def set (d : V) : KeyedTree K V → List K → V → KeyedTree K V
  | node _ cs, [], v => node v cs
  | node w cs, k :: ks, v =>
    node w (putChild k (set d ((cs.lookup k).getD (node d [])) ks v) cs)

/-- The value at a path, or `d` if there is no such node. -/
def getD (d : V) : KeyedTree K V → List K → V
  | t, [] => t.value
  | t, k :: ks =>
    match t.child? k with
    | none => d
    | some c => c.getD d ks

@[simp] theorem getD_nil (d : V) : t.getD d [] = t.value := rfl

theorem getD_cons {d : V} {ks : List K} :
    t.getD d (k :: ks) = ((t.child? k).map fun c => c.getD d ks).getD d := by
  rw [getD]
  cases t.child? k <;> rfl

private theorem lookup_cons_eq {k' : K} :
    ((k', c) :: cs).lookup k = if k = k' then some c else cs.lookup k := by
  rw [lookup_cons]
  by_cases hk : k = k'
  · simp [hk]
  · simp [hk, beq_false_of_ne hk]

theorem lookup_putChild {k' : K} :
    (putChild k c cs).lookup k' = if k' = k then some c else cs.lookup k' := by
  induction cs with
  | nil => rw [putChild, lookup_cons_eq]
  | cons e cs ih =>
    obtain ⟨k₀, c₀⟩ := e
    rw [putChild, lookup_cons_eq]
    by_cases hk₀ : k₀ = k
    · subst hk₀
      rw [if_pos rfl, lookup_cons_eq]
      by_cases hk : k' = k₀
      · simp [hk]
      · simp [hk]
    · rw [if_neg hk₀, lookup_cons_eq, ih]
      by_cases hk : k' = k₀
      · simp [hk, hk₀]
      · simp [hk]

theorem getD_leaf (d : V) (ks : List K) : (node d [] : KeyedTree K V).getD d ks = d := by
  cases ks <;> rfl

/-- **Storing a value** changes the tree at one path. -/
theorem getD_set {d v : V} {ks qs : List K} :
    (t.set d ks v).getD d qs = if qs = ks then v else t.getD d qs := by
  induction ks generalizing t qs with
  | nil =>
    obtain ⟨w, cs⟩ := t
    cases qs with
    | nil => rfl
    | cons q qs =>
      rw [if_neg (cons_ne_nil q qs)]
      rfl
  | cons k ks ih =>
    obtain ⟨w, cs⟩ := t
    cases qs with
    | nil => rfl
    | cons q qs =>
      rw [set, getD_cons, child?, children, lookup_putChild]
      by_cases hq : q = k
      · subst hq
        rw [if_pos rfl, Option.map_some, Option.getD_some, ih]
        simp only [List.cons.injEq, true_and, getD_cons, child?, children]
        cases cs.lookup q with
        | none => simp [getD_leaf]
        | some c => rfl
      · rw [if_neg hq, if_neg (fun h => hq (List.cons.inj h).1), getD_cons]
        rfl

end Paths

/-! ### All nodes -/

mutual

/-- The values of all nodes, parents first. -/
def values : KeyedTree K V → List V
  | node v cs => v :: valuesOf cs

/-- The values of all nodes of a list of children. -/
def valuesOf : List (K × KeyedTree K V) → List V
  | [] => []
  | (_, c) :: cs => c.values ++ valuesOf cs

end

theorem valuesOf_eq (cs : List (K × KeyedTree K V)) :
    valuesOf cs = cs.flatMap fun e => e.2.values := by
  induction cs with
  | nil => rfl
  | cons e cs ih => rw [valuesOf, ih, flatMap_cons]

theorem values_eq (t : KeyedTree K V) :
    t.values = t.value :: t.children.flatMap fun e => e.2.values := by
  obtain ⟨v, cs⟩ := t
  rw [values, valuesOf_eq]
  rfl

theorem value_mem_values (t : KeyedTree K V) : t.value ∈ t.values := by
  rw [values_eq]
  exact mem_cons_self

/-- What is below a child is below its parent. -/
theorem values_subset_of_child? [DecidableEq K] {t c : KeyedTree K V} {k : K}
    (h : t.child? k = some c) : c.values ⊆ t.values := by
  intro v hv
  obtain ⟨e, he, rfl⟩ : ∃ e ∈ t.children, e.2 = c := by
    obtain ⟨l, r, heq, -⟩ := lookup_eq_some_iff.mp h
    exact ⟨(k, c), heq ▸ mem_append_right l mem_cons_self, rfl⟩
  rw [values_eq]
  exact mem_cons_of_mem _ (mem_flatMap.mpr ⟨e, he, hv⟩)

/-- Visit the nodes of the trees on a work list: take one off, fold its value in, and put its
children on the list. `none` when the fuel is used up before the list is. -/
def sweep (f : β → V → β) : ℕ → List (KeyedTree K V) → β → Option β
  | _, [], b => some b
  | 0, _ :: _, _ => none
  | n + 1, t :: q, b => sweep f n (t.children.map Prod.snd ++ q) (f b t.value)

/-- **The work list** visits each node once. -/
theorem sweep_eq {f : β → V → β} {n : ℕ} {q : List (KeyedTree K V)} {b : β}
    (hn : (q.flatMap values).length ≤ n) :
    sweep f n q b = some ((q.flatMap values).foldl f b) := by
  induction n generalizing q b with
  | zero =>
    cases q with
    | nil => rfl
    | cons t q =>
      rw [flatMap_cons, values_eq] at hn
      simp at hn
  | succ n ih =>
    cases q with
    | nil => rfl
    | cons t q =>
      have hvalues : (t :: q).flatMap values =
          t.value :: (t.children.map Prod.snd ++ q).flatMap values := by
        rw [flatMap_cons, values_eq, flatMap_append, flatMap_map, cons_append]
      rw [hvalues, length_cons] at hn
      rw [sweep, ih (Nat.le_of_succ_le_succ hn), hvalues, foldl_cons]

end KeyedTree
