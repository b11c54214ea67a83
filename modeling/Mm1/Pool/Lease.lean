import Mm1.Pool.TrieOps

/-!
# Address pools

`Pool` keeps its free space in two tries: leases are taken from `main`, dropped leases return
to `used`. When `main` cannot serve a request the two are swapped, and when neither can alone,
`used` is drained into `main`, so that halves freed into different tries meet again.

`Ok` says that the two tries are well formed and have no address in common. `Ok.lease` and
`Ok.drop` say what becomes of the free addresses, and that both operations keep it.
-/

namespace Mm1

open PrefixBlock NetAddress

/-- The error of `Pool::lease`. -/
inductive LeaseError where
  | unavailable
  deriving DecidableEq, Repr

/-- The state behind the lock of a pool (`Shared`). -/
structure Pool where
  /-- Where leases are taken from. -/
  main : Trie
  /-- Where dropped leases return to. -/
  used : Trie
  deriving DecidableEq

namespace Pool

/-- `Pool::new`: the whole network, normalized to its mask, is free. -/
def new (n : NetAddress) : Option Pool := do
  let mask := n.mask.intoU64
  let address := n.address.intoU64 &&& mask
  let (main, _) ← Trie.releaseDfs .none address mask
  return { main, used := .none }

/-- `Pool::lease`. The outer `Option` is the absence of panics. -/
def lease (s : Pool) (mask : NetMask) : Option (Except LeaseError NetAddress × Pool) := do
  let (fromMain, main) ← s.main.acquireDfs mask.intoU64
  match fromMain with
  | some a => return (.ok ⟨⟨a⟩, mask⟩, { main, used := s.used })
  | none =>
    let (fromUsed, used) ← s.used.acquireDfs mask.intoU64
    match fromUsed with
    | some a => return (.ok ⟨⟨a⟩, mask⟩, { main := used, used := main })
    | none =>
      -- neither trie can serve the request alone: fold `used` into `main`, then try again
      let main ← used.drainDfs main
      let (fromBoth, main) ← main.acquireDfs mask.intoU64
      match fromBoth with
      | some a => return (.ok ⟨⟨a⟩, mask⟩, { main, used := .none })
      | none => return (.error .unavailable, { main, used := .none })

/-- `Lease::drop`: the block returns to `used`. -/
def drop (s : Pool) (l : NetAddress) : Option Pool := do
  let (used, _) ← s.used.releaseDfs l.address.intoU64 l.mask.intoU64
  return { s with used }

/-- The free addresses of a pool: `main` together with `used`. -/
def Free (s : Pool) (a : U64) : Prop := s.main.Free a ∨ s.used.Free a

/-- Both tries are well formed and hold no common address. -/
structure Ok (s : Pool) : Prop where
  main : s.main.Ok
  used : s.used.Ok
  disjoint : ∀ a, s.main.Free a → ¬ s.used.Free a

theorem new_spec (n : NetAddress) : ∃ s, new n = some s ∧ s.Ok ∧ ∀ a, s.Free a ↔ n.Contains a := by
  have hal := aligned_and_prefixMask n.address.intoU64 n.mask.level
  have hc := Trie.Canon.leaf n.mask.level_le hal
  refine ⟨⟨.leaf (n.address.intoU64 &&& n.mask.intoU64) n.mask.intoU64, .none⟩, rfl,
    ⟨?_, Trie.ok_none, fun a _ => Trie.free_none a⟩, fun a => ?_⟩
  · simp only [NetMask.intoU64_eq]
    exact hc.ok
  · simp [Free, Trie.Free, NetAddress.Contains]

/-- **Lease.** A request is answered with an aligned block of free addresses, which is taken
out; or it fails, exactly when there is no such block, and then no free address is lost. -/
theorem Ok.lease {s : Pool} (h : s.Ok) (m : NetMask) :
    (∃ (l : NetAddress) (s' : Pool), s.lease m = some (.ok l, s') ∧ l.mask = m ∧ l.IsAligned ∧
      (∀ a, l.Contains a → s.Free a) ∧ s'.Ok ∧
      ∀ a, s'.Free a ↔ s.Free a ∧ ¬ l.Contains a) ∨
    (∃ s', s.lease m = some (.error .unavailable, s') ∧
      (∀ b : NetAddress, b.mask = m → ¬ ∀ a, b.Contains a → s.Free a) ∧ s'.Ok ∧
      ∀ a, s'.Free a ↔ s.Free a) := by
  rw [Pool.lease, NetMask.intoU64_eq]
  have hcontains : ∀ (addr a : U64), (⟨⟨addr⟩, m⟩ : NetAddress).Contains a ↔
      SamePrefix m.level a addr := fun addr a => contains_iff
  have haligned : ∀ addr : U64, Aligned m.level addr → (⟨⟨addr⟩, m⟩ : NetAddress).IsAligned :=
    fun addr ha => isAligned_iff.mpr ha
  rcases h.main.acquire m.level_le with ⟨addr, t, heq, hal, hblock, hok, hfree⟩ | ⟨heq, hnone⟩
  · -- `main` serves the request
    refine .inl ⟨⟨⟨addr⟩, m⟩, ⟨t, s.used⟩, ?_, rfl, haligned addr hal, fun a ha => ?_,
      ⟨hok, h.used, fun a ha => h.disjoint a ((hfree a).mp ha).1⟩, fun a => ?_⟩
    · simp only [heq, Option.bind_eq_bind, Option.bind_some, Option.pure_def]
    · exact .inl (hblock a ((hcontains addr a).mp ha))
    · rw [hcontains, Free, hfree, Free, or_and_right]
      refine or_congr_right ⟨fun hu => ⟨hu, fun hc => h.disjoint a (hblock a hc) hu⟩, And.left⟩
  rcases h.used.acquire m.level_le with ⟨addr, t, heq', hal, hblock, hok, hfree⟩ | ⟨heq', hnone'⟩
  · -- `used` serves the request and the tries are swapped
    refine .inl ⟨⟨⟨addr⟩, m⟩, ⟨t, s.main⟩, ?_, rfl, haligned addr hal, fun a ha => ?_,
      ⟨hok, h.main, fun a ha hm => h.disjoint a hm ((hfree a).mp ha).1⟩, fun a => ?_⟩
    · simp only [heq, heq', Option.bind_eq_bind, Option.bind_some, Option.pure_def]
    · exact .inr (hblock a ((hcontains addr a).mp ha))
    · rw [hcontains, Free, hfree, Free, or_comm, or_and_right]
      refine or_congr_left ⟨fun hm => ⟨hm, fun hc => h.disjoint a hm (hblock a hc)⟩, And.left⟩
  -- the free space is folded into `main`
  obtain ⟨d, hdrain, hokd, hfreed⟩ := h.used.drain h.main fun a hu hm => h.disjoint a hm hu
  have hfreed' : ∀ a, d.Free a ↔ s.Free a := hfreed
  rcases hokd.acquire m.level_le with ⟨addr, t, heq'', hal, hblock, hok, hfree⟩ | ⟨heq'', hnone''⟩
  · refine .inl ⟨⟨⟨addr⟩, m⟩, ⟨t, .none⟩, ?_, rfl, haligned addr hal, fun a ha => ?_,
      ⟨hok, Trie.ok_none, fun a _ => Trie.free_none a⟩, fun a => ?_⟩
    · simp only [heq, heq', hdrain, heq'', Option.bind_eq_bind, Option.bind_some, Option.pure_def]
    · exact (hfreed' a).mp (hblock a ((hcontains addr a).mp ha))
    · rw [hcontains, ← hfreed', Free, hfree]
      simp
  · refine .inr ⟨⟨d, .none⟩, ?_, ?_, ⟨hokd, Trie.ok_none, fun a _ => Trie.free_none a⟩, fun a => ?_⟩
    · simp only [heq, heq', hdrain, heq'', Option.bind_eq_bind, Option.bind_some, Option.pure_def]
    · rintro b rfl hblock
      refine hnone'' b.address.intoU64 fun a ha => (hfreed' a).mpr (hblock a ?_)
      exact contains_iff.mpr ha
    · rw [← hfreed', Free]
      simp

/-- **Drop.** A block that is not free becomes free. -/
theorem Ok.drop {s : Pool} (h : s.Ok) {l : NetAddress} (hl : l.IsAligned)
    (hdisj : ∀ a, l.Contains a → ¬ s.Free a) :
    ∃ s', s.drop l = some s' ∧ s'.Ok ∧ ∀ a, s'.Free a ↔ s.Free a ∨ l.Contains a := by
  obtain ⟨t, heq, hok, hfree⟩ := h.used.release l.mask.level_le
    (isAligned_iff.mp hl) fun a ha hu =>
      hdisj a (contains_iff.mpr ha) (.inr hu)
  refine ⟨{ s with used := t }, ?_, ⟨h.main, hok, fun a hm hu => ?_⟩, fun a => ?_⟩
  · simp only [Pool.drop, NetMask.intoU64_eq, heq, Option.bind_eq_bind, Option.bind_some,
      Option.pure_def]
  · rcases (hfree a).mp hu with hu | hu
    · exact h.disjoint a hm hu
    · exact hdisj a (contains_iff.mpr hu) (.inl hm)
  · rw [contains_iff, Free, hfree, Free, or_assoc]

end Pool

end Mm1
