import Mm1.Address.Basic

/-!
# The allocation trie

The path-compressed binary trie behind an address pool (`pool/trie.rs`). A leaf is a free
block; a fork is an inner node whose children lie on the two sides of one bit. A block is
written as in the source: a path together with the word of its mask.

Every function that the source guards by `assert!`, `expect` or `panic!` returns an `Option`;
`none` stands for the panic.
-/

namespace Mm1

open PrefixBlock

/-- A slot of the trie, the source's `Option<Box<Node>>`: `none` is the empty slot, the other
constructors are the two shapes of `Node` (`Next::Leaf` and `Next::Fork`). -/
inductive Trie where
  | none
  | leaf (segPath segMask : U64)
  | fork (segPath segMask : U64) (zero one : Trie)
  deriving DecidableEq, Repr

/-- The mask of the `c` highest bits; as in `NetMask::into_u64`, `0` is a case of its own. -/
def highMask (c : ℕ) : U64 :=
  match c with
  | 0 => 0#64
  | c => BitVec.allOnes 64 <<< (64 - c)

/-- The common ancestor of two blocks (`util::common_ancestor`): the part of the path on which
both agree, and its mask. -/
def commonAncestor (l r : U64 × U64) : U64 × U64 :=
  let m := l.2 &&& r.2
  let cm := highMask (leadingZeros ((l.1 &&& m) ^^^ (r.1 &&& m))) &&& m
  (l.1 &&& cm, cm)

namespace Trie

/-- The mask of the node in a slot, if there is one. -/
def segMask? : Trie → Option U64
  | none => Option.none
  | leaf _ m => some m
  | fork _ m _ _ => some m

/-- `matches!(node.next, Next::Leaf)`. -/
def isLeaf : Trie → Bool
  | leaf _ _ => true
  | _ => false

/-- Merge two full halves into their parent (`Node::maybe_compact`). -/
def maybeCompact : Trie → Option Trie
  | fork p m zero one => do
    let zeroMask ← zero.segMask?
    let oneMask ← one.segMask?
    if zeroMask <<< 1 = m ∧ oneMask <<< 1 = m ∧ zero.isLeaf ∧ one.isLeaf then
      return leaf p m
    else
      return fork p m zero one
  | t => some t

/-- Put a block beside the current node, below their common ancestor. -/
def split (cur : Trie) (ca : U64 × U64) (splitBit addr mask : U64) : Option (Trie × Bool) := do
  let t ← maybeCompact <|
    if splitBit = 0#64 then fork ca.1 ca.2 (leaf addr mask) cur
    else fork ca.1 ca.2 cur (leaf addr mask)
  return (t, true)

/-- Add a block to the free space of a slot; the flag says whether it was inserted
(`dfs` of `Pool::release`). -/
def releaseDfs : Trie → U64 → U64 → Option (Trie × Bool)
  | none, addr, mask => some (leaf addr mask, true)
  | leaf p m, addr, mask =>
    let ca := commonAncestor (p, m) (addr, mask)
    if trailingZeros ca.2 = 0 then Option.none
    else if ca.2 = mask then some (leaf p m, false)
    else if ca.2 = m then some (leaf p m, false)
    else
      let splitBit := addr &&& (1#64 <<< (trailingZeros ca.2 - 1))
      split (leaf p m) ca splitBit addr mask
  | fork p m zero one, addr, mask =>
    let ca := commonAncestor (p, m) (addr, mask)
    let splitBit := addr &&& (1#64 <<< (trailingZeros ca.2 - 1))
    if trailingZeros ca.2 = 0 then Option.none
    else if ca.2 = mask then some (fork p m zero one, false)
    else if ca.2 = m then do
      let (zero', one', inserted) ←
        if splitBit = 0#64 then do
          let (zero', inserted) ← releaseDfs zero addr mask
          pure (zero', one, inserted)
        else do
          let (one', inserted) ← releaseDfs one addr mask
          pure (zero, one', inserted)
      let t ← maybeCompact (fork p m zero' one')
      return (t, inserted)
    else split (fork p m zero one) ca splitBit addr mask

/-- What is left of a leaf when its lowest block of a smaller size is taken: one leaf for every
bit between the two masks. -/
def leftOver (p soughtMask segMask : U64) : Trie :=
  let lo := trailingZeros soughtMask
  (List.range' (lo + 1) (trailingZeros segMask - (lo + 1))).foldl
    (fun acc i =>
      let splitMask : U64 := BitVec.allOnes 64 <<< i
      fork p (splitMask <<< 1) acc (leaf (p ||| (1#64 <<< i)) splitMask))
    (leaf (p ||| (1#64 <<< lo)) soughtMask)

/-- Put the two children of a fork together again after one of them was changed: a child that
became empty is dropped together with the fork. -/
def rejoin (p m : U64) : Trie → Trie → Option Trie
  | none, none => Option.none
  | z, none => some z
  | none, o => some o
  | z, o => some (fork p m z o)

/-- Take a block of the given mask out of a slot (`dfs` of `Pool::acquire`). -/
def acquireDfs : Trie → U64 → Option (Option U64 × Trie)
  | none, _ => some (Option.none, none)
  | leaf p m, sought =>
    match compare (leadingOnes m) (leadingOnes sought) with
    | .gt => some (Option.none, leaf p m)
    | .eq => some (some p, none)
    | .lt => some (some p, leftOver p sought m)
  | fork p m zero one, sought =>
    match compare (leadingOnes m) (leadingOnes sought) with
    | .gt => some (Option.none, fork p m zero one)
    | .eq => some (Option.none, fork p m zero one)
    | .lt => do
      let (first, zero') ← acquireDfs zero sought
      let (out, one') ← match first with
        | some a => some (some a, one)
        | Option.none => acquireDfs one sought
      let t ← rejoin p m zero' one'
      return (out, t)

/-- Move every free block of the first slot into the second (`dfs` of `Pool::drain_into`). -/
def drainDfs : Trie → Trie → Option Trie
  | none, other => some other
  | leaf p m, other => do
    let (other', _) ← releaseDfs other p m
    return other'
  | fork _ _ zero one, other => do
    let other' ← drainDfs zero other
    drainDfs one other'

/-- The free blocks of a slot, in address order. -/
def blocks : Trie → List (U64 × U64)
  | none => []
  | leaf p m => [(p, m)]
  | fork _ _ zero one => zero.blocks ++ one.blocks

end Trie

end Mm1
