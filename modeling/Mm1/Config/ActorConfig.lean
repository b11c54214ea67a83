import Mathlib.Data.List.DropRight
import Mm1.Address.Basic
import Mm1.Lib.KeyedTree
import Mm1.Lib.OrderedMap

/-!
# The configuration of actors

A tree of settings along the names of actors (`actor_config.rs`). The settings of an actor are
found by a walk down the tree, which takes a child of the name or else the child `_`, and in which
every node overrides what was set above it. Before that, all runtime keys of the tree were
collected with a work list.

* `mem_runtimeKeys`: the work list meets the key of every node;
* `runtimeKey_mem_runtimeKeys`: so the key that a walk ends with is one of those collected.
-/

namespace Mm1

/-- Where an actor stands in the tree of actors. -/
inductive ActorKey where
  | root
  /-- `Node::Child` -/
  | node (parent : ActorKey) (func : String)
  deriving DecidableEq

namespace ActorKey

/-- `child`: the name is cut at its type arguments, and loses the `(` at its ends. -/
def child (key : ActorKey) (func : String) : ActorKey :=
  let func := (func.toList.dropWhile (· = '(')).rdropWhile (· = '(')
  .node key (String.ofList (func.takeWhile (· ≠ '<')))

/-- What the loop of `path` gathers, from the actor up to the root. -/
def funcs : ActorKey → List String
  | root => []
  | node parent func => func :: parent.funcs

/-- `path`. -/
def path (key : ActorKey) : List String := key.funcs.reverse

end ActorKey

/-- The settings of actors, each of which may be missing. -/
structure ActorConfig where
  runtime : Option String := none
  messageTap : Option String := none
  netmask : Option NetMask := none
  inboxSize : Option ℕ := none
  deriving DecidableEq

namespace ActorConfig

/-- The settings of `c`, and those of `out` where `c` has none. -/
def overlay (c out : ActorConfig) : ActorConfig where
  runtime := c.runtime.or out.runtime
  messageTap := c.messageTap.or out.messageTap
  netmask := c.netmask.or out.netmask
  inboxSize := c.inboxSize.or out.inboxSize

/-- `EffectiveActorConfig::runtime_key` -/
def runtimeKey (c : ActorConfig) : Option String := c.runtime

end ActorConfig

/-- A node has settings, and children by the names of actors (`sub`). -/
abbrev ActorConfigNode := KeyedTree String ActorConfig

variable {k : String} {root : ActorConfigNode}

namespace ActorConfigNode

/-! ### The settings of an actor -/

/-- The loop of `select`. It ends where there is neither a child of the name nor a wildcard. -/
def descend : ActorConfigNode → ActorConfig → List String → ActorConfig
  | _, out, [] => out
  | node, out, p :: path =>
    match (node.child? p).or (node.child? "_") with
    | none => out
    | some n => descend n (n.value.overlay out) path

/-- `select`. -/
def select (root : ActorConfigNode) (key : ActorKey) : ActorConfig :=
  descend root root.value key.path

/-- A walk ends with the key it began with, or with that of a node. -/
private theorem runtime_descend {node : ActorConfigNode} {out : ActorConfig} {path : List String}
    (h : (descend node out path).runtime = some k) :
    out.runtime = some k ∨ ∃ c ∈ node.values, c.runtime = some k := by
  induction path generalizing node out with
  | nil => exact .inl h
  | cons p path ih =>
    rw [descend] at h
    cases hn : (node.child? p).or (node.child? "_") with
    | none =>
      rw [hn] at h
      exact .inl h
    | some n =>
      rw [hn] at h
      -- literal or wildcard, it is a child
      have hsub : n.values ⊆ node.values := by
        rcases Option.or_eq_some_iff.mp hn with hn | ⟨-, hn⟩
        · exact KeyedTree.values_subset_of_child? hn
        · exact KeyedTree.values_subset_of_child? hn
      rcases ih h with hout | ⟨c, hc, hk⟩
      · rcases Option.or_eq_some_iff.mp hout with hk | ⟨-, hk⟩
        · exact .inr ⟨n.value, hsub n.value_mem_values, hk⟩
        · exact .inl hk
      · exact .inr ⟨c, hsub hc, hk⟩

/-! ### The runtime keys of a tree -/

/-- What the work list does with a node. -/
def noteRuntime (used : List (String × Unit)) (c : ActorConfig) : List (String × Unit) :=
  match c.runtime with
  | some k => (OrderedMap.add compare k used).1
  | none => used

/-- The work list runs empty. -/
private theorem sweep_eq_some (root : ActorConfigNode) :
    KeyedTree.sweep noteRuntime root.values.length [root] [] =
      some (root.values.foldl noteRuntime []) := by
  rw [KeyedTree.sweep_eq, List.flatMap_singleton]
  rw [List.flatMap_singleton]

/-- `runtime_keys`, in the order of a `BTreeSet`. -/
def runtimeKeys (root : ActorConfigNode) : List String :=
  ((KeyedTree.sweep noteRuntime root.values.length [root] []).get
    (sweep_eq_some root ▸ rfl)).map Prod.fst

private theorem mem_noteRuntime {used : List (String × Unit)} {c : ActorConfig} :
    (k, ()) ∈ noteRuntime used c ↔ c.runtime = some k ∨ (k, ()) ∈ used := by
  rw [noteRuntime]
  cases c.runtime with
  | none => simp
  | some k' =>
    rw [OrderedMap.mem_add fun h => (Std.LawfulEqOrd.compare_eq_iff_eq.mp h).symm,
      Option.some.injEq, eq_comm]

/-- **The work list** meets the key of every node. -/
theorem mem_runtimeKeys : k ∈ root.runtimeKeys ↔ ∃ c ∈ root.values, c.runtime = some k := by
  have hfold : ∀ (cs : List ActorConfig) (used : List (String × Unit)),
      (k, ()) ∈ cs.foldl noteRuntime used ↔ (∃ c ∈ cs, c.runtime = some k) ∨ (k, ()) ∈ used := by
    intro cs
    induction cs with
    | nil => simp
    | cons c cs ih =>
      intro used
      rw [List.foldl_cons, ih, mem_noteRuntime, List.exists_mem_cons_iff, or_assoc, or_left_comm]
  have hget : root.runtimeKeys = (root.values.foldl noteRuntime []).map Prod.fst := by
    simp only [runtimeKeys, sweep_eq_some, Option.get_some]
  rw [hget]
  simpa [Unique.exists_iff] using hfold root.values []

/-- **Everything that can be selected was collected.** -/
theorem runtimeKey_mem_runtimeKeys {key : ActorKey} (h : (root.select key).runtimeKey = some k) :
    k ∈ root.runtimeKeys := by
  rw [mem_runtimeKeys]
  rcases runtime_descend h with hk | hk
  · exact ⟨root.value, root.value_mem_values, hk⟩
  · exact hk

/-- `ensure_runtime_keys_are_valid`. The error has the keys that are not available. -/
def ensureRuntimeKeysAreValid (root : ActorConfigNode) (availableKeys : List String) :
    Except (List String) Unit :=
  let invalidKeys := root.runtimeKeys.filter (· ∉ availableKeys)
  if invalidKeys = [] then .ok () else .error invalidKeys

end ActorConfigNode

end Mm1
