import Mathlib.Algebra.Order.Group.Nat
import Mathlib.Data.List.Induction
import Mm1.Lib.KeyedTree

/-!
# The log filter

Statements such as `a::b=debug` set the level of a target and of everything below it; `a::*=debug`
sets it for what is below `a`. `FilterTrie` keeps them in a tree along the segments of their paths,
and a lookup walks down the tree with three fallbacks at every step (`level_filter_trie.rs`).

`scan` is what the filter is for: it goes through the statements and keeps the most specific one
that matches.

* `levelForTarget_eq`: a lookup goes through the paths that match, the most specific first;
* `ranked_candidates`: the order of these paths is the order of their ranks;
* `levelForTarget_fromStatements`: so the lookup and the scan agree;
* `scan_spec`: the scan finds the most specific statement.
-/

namespace Mm1

open Option List Function

/-- The levels of `tracing`, the least verbose first. -/
inductive Level where
  | error
  | warn
  | info
  | debug
  | trace
  deriving DecidableEq, Repr

/-- How verbose a level is; levels are compared by it. -/
def Level.verbosity : Level → ℕ
  | error => 0
  | warn => 1
  | info => 2
  | debug => 3
  | trace => 4

/-- A statement of the log filter. -/
structure LogTargetConfig where
  path : List String
  level : Level
  deriving DecidableEq

/-- A node has the level of its own path, if a statement sets it. -/
abbrev FilterTrie := KeyedTree String (Option Level)

namespace FilterTrie

/-! ### The trie -/

/-- `level_for_target`. A step down the tree, the wildcard below this node, and the level of this
node, in this order; the lookup with an empty path in the wildcard's node is its level. -/
def levelForTarget : FilterTrie → List String → Option Level
  | t, [] => t.value
  | t, head :: rest =>
    ((t.child? head).bind fun node => levelForTarget node rest).or
      (((t.child? "*").bind fun node => node.value).or t.value)

/-- `from_statements`. -/
def fromStatements (statements : List LogTargetConfig) : FilterTrie :=
  statements.foldl (fun root s => root.set none s.path (some s.level)) (.node none [])

/-- `allows`. -/
def allows (t : FilterTrie) (target : String) (eventLevel : Level) : Bool :=
  ((t.levelForTarget (target.splitOn "::")).map
    fun level => decide (eventLevel.verbosity ≤ level.verbosity)).getD true

/-! ### The scan -/

/-- A path matches if it is the target or above it, or is a wildcard below something above it. -/
def Matches (path target : List String) : Prop :=
  path <+: target ∨ ∃ p, path = p ++ ["*"] ∧ p <+: target ∧ p ≠ target

instance (path target : List String) : Decidable (Matches path target) :=
  decidable_of_iff
    (path <+: target ∨ path.getLast? = some "*" ∧ path.dropLast <+: target ∧
      path.dropLast ≠ target) <| by
    refine or_congr_right ⟨?_, ?_⟩
    · rintro ⟨hlast, h⟩
      exact ⟨path.dropLast, (dropLast_append_getLast? "*" hlast).symm, h⟩
    · rintro ⟨p, rfl, h⟩
      simpa using h

/-- A path is at most as specific as another: it is shorter, or of the same length and not literal
where the other is a wildcard. -/
def AtMost (target path path' : List String) : Prop :=
  path.length < path'.length ∨
    path.length = path'.length ∧ (path <+: target → path' <+: target)

instance (target path path' : List String) : Decidable (AtMost target path path') :=
  inferInstanceAs (Decidable (_ ∨ _))

/-- One statement of the scan: it is kept if it matches and nothing more specific was seen. -/
def scanStep (target : List String) (best : Option LogTargetConfig) (s : LogTargetConfig) :
    Option LogTargetConfig :=
  if Matches s.path target ∧ ∀ b ∈ best, AtMost target b.path s.path then some s else best

/-- The most specific statement that matches; of several with the same path, the last one. -/
def scan (statements : List LogTargetConfig) (target : List String) : Option LogTargetConfig :=
  statements.foldl (scanStep target) none

/-- A statement that matches, with no more specific one before it and none that is as specific
after it. -/
def MostSpecific (statements : List LogTargetConfig) (target : List String)
    (b : LogTargetConfig) : Prop :=
  ∃ before after, statements = before ++ b :: after ∧ Matches b.path target ∧
    (∀ s ∈ before, Matches s.path target → AtMost target s.path b.path) ∧
    ∀ s ∈ after, Matches s.path target → ¬ AtMost target b.path s.path

/-! ### How specific a path is -/

section Rank

variable {target path path' : List String} {head : String}

/-- How specific a matching path is, as a number. -/
def rank (target path : List String) : ℕ := 2 * path.length + if path <+: target then 1 else 0

private theorem atMost_iff : AtMost target path path' ↔ rank target path ≤ rank target path' := by
  unfold AtMost rank
  by_cases h : path <+: target <;> by_cases h' : path' <+: target <;> simp [h, h'] <;> omega

private theorem rank_cons : rank (head :: target) (head :: path) = rank target path + 2 := by
  simp only [rank, length_cons, cons_prefix_cons, true_and]
  omega

private theorem Matches.rank_pos (h : Matches path target) : 0 < rank target path := by
  rcases h with h | ⟨p, rfl, -⟩
  · rw [rank, if_pos h]
    exact Nat.succ_pos _
  · rw [rank, length_append]
    exact Nat.lt_add_right _ (Nat.mul_pos Nat.two_pos (Nat.succ_pos _))

private theorem eq_of_length_eq (h : path <+: target) (h' : path' <+: target)
    (hlen : path.length = path'.length) : path = path' :=
  (prefix_of_prefix_length_le h h' hlen.le).eq_of_length hlen

/-- Two paths that match one target and are as specific as each other are the same path. -/
private theorem Matches.eq_of_rank_eq (h : Matches path target) (h' : Matches path' target)
    (hrank : rank target path = rank target path') : path = path' := by
  have hlit : path <+: target ↔ path' <+: target := by
    unfold rank at hrank
    by_cases hp : path <+: target <;> by_cases hp' : path' <+: target <;>
      simp [hp, hp'] at hrank ⊢ <;> omega
  have hlen : path.length = path'.length := by
    simp only [rank, hlit] at hrank
    omega
  by_cases hp : path <+: target
  · exact eq_of_length_eq hp (hlit.mp hp) hlen
  -- neither is literal, so both are wildcards below equally long parts of the target
  obtain ⟨p, rfl, hp, -⟩ := h.resolve_left hp
  obtain ⟨p', rfl, hp', -⟩ := h'.resolve_left (fun h => ‹¬_› (hlit.mpr h))
  rw [eq_of_length_eq hp hp' (by simpa using hlen)]

private theorem matches_nil : Matches path [] ↔ path = [] := by
  unfold Matches
  simp only [prefix_nil]
  refine ⟨?_, .inl⟩
  rintro (h | ⟨p, -, rfl, hne⟩)
  · exact h
  · exact absurd rfl hne

/-- How a path matches a target. -/
private theorem matches_cons : Matches path (head :: target) ↔
    (∃ p, path = head :: p ∧ Matches p target) ∨ path = ["*"] ∨ path = [] := by
  constructor
  · rintro (h | ⟨p, rfl, h, hne⟩)
    · rcases prefix_cons_iff.mp h with rfl | ⟨p, rfl, hp⟩
      · exact .inr (.inr rfl)
      · exact .inl ⟨p, rfl, .inl hp⟩
    · rcases prefix_cons_iff.mp h with rfl | ⟨p, rfl, hp⟩
      · exact .inr (.inl rfl)
      · refine .inl ⟨p ++ ["*"], rfl, .inr ⟨p, rfl, hp, ?_⟩⟩
        rintro rfl
        exact hne rfl
  · rintro (⟨p, rfl, h | ⟨p, rfl, h, hne⟩⟩ | rfl | rfl)
    · exact .inl (cons_prefix_cons.mpr ⟨rfl, h⟩)
    · refine .inr ⟨head :: p, rfl, cons_prefix_cons.mpr ⟨rfl, h⟩, ?_⟩
      intro heq
      exact hne (List.cons.inj heq).2
    · exact .inr ⟨[], rfl, nil_prefix, (cons_ne_nil head target).symm⟩
    · exact .inl nil_prefix

end Rank

/-! ### What a lookup tries -/

/-- The paths a lookup tries, in its order. -/
def candidates : List String → List (List String)
  | [] => [[]]
  | head :: rest => (candidates rest).map (head :: ·) ++ [["*"], []]

/-- **A lookup** goes through the candidates. -/
theorem levelForTarget_eq (t : FilterTrie) (target : List String) :
    t.levelForTarget target = (candidates target).findSome? (t.getD none) := by
  induction target generalizing t with
  | nil =>
    rw [levelForTarget, candidates, List.findSome?_singleton, KeyedTree.getD_nil]
  | cons head rest ih =>
    have hchild : ((candidates rest).map (head :: ·)).findSome? (t.getD none) =
        (t.child? head).bind fun node => levelForTarget node rest := by
      rw [List.findSome?_map]
      cases hc : t.child? head with
      | none =>
        rw [bind_none, List.findSome?_eq_none_iff]
        intro p _
        rw [comp_apply, KeyedTree.getD_cons, hc]
        rfl
      | some node =>
        rw [bind_some, ih]
        congr 1
        funext p
        rw [comp_apply, KeyedTree.getD_cons, hc]
        rfl
    have hstar : t.getD none ["*"] = (t.child? "*").bind fun node => node.value := by
      rw [KeyedTree.getD_cons]
      cases t.child? "*" <;> rfl
    rw [levelForTarget, candidates, List.findSome?_append, hchild, ← hstar]
    congr 1
    rw [List.findSome?_cons, List.findSome?_singleton, KeyedTree.getD_nil]
    cases t.getD none ["*"] <;> rfl

private theorem mem_candidates {target path : List String} :
    path ∈ candidates target ↔ Matches path target := by
  induction target generalizing path with
  | nil => rw [candidates, mem_singleton, matches_nil]
  | cons head rest ih =>
    rw [candidates, mem_append, List.mem_map, matches_cons]
    simp only [ih, mem_cons, not_mem_nil, or_false]
    refine or_congr_left (exists_congr fun p => ?_)
    rw [and_comm, eq_comm]

/-- The candidates are tried from the most specific down. -/
private theorem ranked_candidates (target : List String) :
    (candidates target).Pairwise fun p q => rank target q ≤ rank target p := by
  induction target with
  | nil => exact pairwise_singleton _ _
  | cons head rest ih =>
    have hstar : rank (head :: rest) ["*"] ≤ 3 := by
      unfold rank
      split_ifs <;> decide
    have hroot : rank (head :: rest) [] = 1 := by simp [rank]
    rw [candidates, pairwise_append, pairwise_map]
    refine ⟨ih.imp fun h => ?_, ?_, ?_⟩
    · rw [rank_cons, rank_cons]
      exact Nat.add_le_add_right h 2
    · simp only [pairwise_pair, hroot]
      exact (matches_cons.mpr (.inr (.inl rfl))).rank_pos
    · intro p hp q hq
      obtain ⟨p, hmem, rfl⟩ := mem_map.mp hp
      have hpos := (mem_candidates.mp hmem).rank_pos
      rw [rank_cons]
      simp only [mem_cons, not_mem_nil, or_false] at hq
      rcases hq with rfl | rfl <;> omega

/-! ### The lookup and the scan -/

section Best

variable {f : List String → Option Level} {target : List String} {best : Option LogTargetConfig}

/-- The best of the statements whose levels `f` has. -/
structure IsBest (f : List String → Option Level) (target : List String)
    (best : Option LogTargetConfig) : Prop where
  found : ∀ b ∈ best, Matches b.path target ∧ f b.path = some b.level
  above : ∀ p, Matches p target → f p ≠ none →
    ∃ b ∈ best, rank target p ≤ rank target b.path

/-- The scan keeps the best filter so far. -/
private theorem IsBest.scanStep (h : IsBest f target best) (s : LogTargetConfig) :
    IsBest (update f s.path (some s.level)) target (scanStep target best s) := by
  simp only [FilterTrie.scanStep, atMost_iff]
  split_ifs with hs
  · refine ⟨?_, ?_⟩
    · rintro b ⟨⟩
      exact ⟨hs.1, update_self ..⟩
    · intro p hp hne
      refine ⟨s, rfl, ?_⟩
      by_cases hps : p = s.path
      · rw [hps]
      · rw [update_of_ne hps] at hne
        obtain ⟨b, hb, hle⟩ := h.above p hp hne
        exact hle.trans (hs.2 b hb)
  · -- the statement does not match, or something more specific was seen
    have hlt : Matches s.path target → ∃ b ∈ best, rank target s.path < rank target b.path := by
      intro hm
      by_contra hno
      push Not at hno
      exact hs ⟨hm, hno⟩
    refine ⟨?_, ?_⟩
    · intro b hb
      obtain ⟨hm, hlevel⟩ := h.found b hb
      refine ⟨hm, ?_⟩
      rw [update_of_ne, hlevel]
      intro heq
      obtain ⟨b', hb', hlt⟩ := hlt (heq ▸ hm)
      rw [mem_unique hb hb'] at heq
      exact absurd hlt (heq ▸ lt_irrefl _)
    · intro p hp hne
      by_cases hps : p = s.path
      · obtain ⟨b, hb, hlt⟩ := hlt (hps ▸ hp)
        exact ⟨b, hb, hps ▸ hlt.le⟩
      · rw [update_of_ne hps] at hne
        exact h.above p hp hne

/-- The first candidate with a level is the path of the best statement. -/
private theorem IsBest.findSome?_candidates (h : IsBest f target best) :
    (candidates target).findSome? f = best.map LogTargetConfig.level := by
  cases hfound : (candidates target).findSome? f with
  | none =>
    rw [List.findSome?_eq_none_iff] at hfound
    cases best with
    | none => rfl
    | some b =>
      obtain ⟨hm, hlevel⟩ := h.found b rfl
      rw [hfound b.path (mem_candidates.mpr hm)] at hlevel
      exact absurd hlevel (some_ne_none _).symm
  | some level =>
    obtain ⟨before, p, after, hsplit, hp, hbefore⟩ := List.findSome?_eq_some_iff.mp hfound
    have hpm : Matches p target := mem_candidates.mp (by rw [hsplit]; simp)
    obtain ⟨b, hb, hle⟩ := h.above p hpm (by rw [hp]; exact some_ne_none _)
    obtain ⟨hbm, hlevel⟩ := h.found b hb
    have hranked := ranked_candidates target
    have hmem := mem_candidates.mpr hbm
    rw [hsplit] at hranked hmem
    -- the best path is not before the first candidate with a level, so it is not above it
    have hge : rank target b.path ≤ rank target p := by
      rcases mem_append.mp hmem with hmem | hmem
      · rw [hbefore b.path hmem] at hlevel
        exact absurd hlevel (some_ne_none _).symm
      · rcases mem_cons.mp hmem with heq | hmem
        · rw [heq]
        · exact (pairwise_cons.mp (pairwise_append.mp hranked).2.1).1 _ hmem
    rw [hpm.eq_of_rank_eq hbm (le_antisymm hle hge), hlevel] at hp
    rw [mem_def.mp hb, map_some, some.inj hp]

end Best

private theorem MostSpecific.atMost {statements : List LogTargetConfig} {target : List String}
    {b s : LogTargetConfig} (h : MostSpecific statements target b) (hs : s ∈ statements)
    (hm : Matches s.path target) : AtMost target s.path b.path := by
  obtain ⟨before, after, rfl, -, hbefore, hafter⟩ := h
  rcases mem_append.mp hs with hs | hs
  · exact hbefore s hs hm
  rcases mem_cons.mp hs with rfl | hs
  · exact atMost_iff.mpr le_rfl
  · have hlt := hafter s hs hm
    rw [atMost_iff, not_le] at hlt
    exact atMost_iff.mpr hlt.le

section Scan

variable (statements : List LogTargetConfig) (target : List String)

private theorem scan_concat (s : LogTargetConfig) :
    scan (statements ++ [s]) target = scanStep target (scan statements target) s := by
  rw [scan, foldl_append, foldl_cons, foldl_nil, scan]

/-- What the scan finds. -/
private theorem scan_spec :
    (scan statements target = none ∧ ∀ s ∈ statements, ¬ Matches s.path target) ∨
      ∃ b, scan statements target = some b ∧ MostSpecific statements target b := by
  induction statements using List.reverseRecOn with
  | nil => exact .inl ⟨rfl, fun s hs => absurd hs not_mem_nil⟩
  | append_singleton statements s ih =>
    rw [scan_concat]
    rcases ih with ⟨hnone, hno⟩ | ⟨b, hb, hbest⟩
    · rw [hnone, scanStep]
      by_cases hm : Matches s.path target
      · refine .inr ⟨s, if_pos ⟨hm, fun b hb => absurd hb (not_mem_none b)⟩, ?_⟩
        exact ⟨statements, [], rfl, hm, fun s' hs' hm' => absurd hm' (hno s' hs'),
          fun s' hs' => absurd hs' not_mem_nil⟩
      · refine .inl ⟨if_neg fun h => hm h.1, fun s' hs' => ?_⟩
        rcases mem_append.mp hs' with hs' | hs'
        · exact hno s' hs'
        · rwa [mem_singleton.mp hs']
    · rw [hb, scanStep]
      simp only [mem_some_iff, forall_eq']
      by_cases hs : Matches s.path target ∧ AtMost target b.path s.path
      · refine .inr ⟨s, if_pos hs, statements, [], rfl, hs.1, fun s' hs' hm' => ?_,
          fun s' hs' => absurd hs' not_mem_nil⟩
        have hle := atMost_iff.mp (hbest.atMost hs' hm')
        exact atMost_iff.mpr (hle.trans (atMost_iff.mp hs.2))
      · obtain ⟨before, after, rfl, hm, hbefore, hafter⟩ := hbest
        refine .inr ⟨b, if_neg hs, before, after ++ [s], by simp, hm, hbefore, ?_⟩
        intro s' hs' hm'
        rcases mem_append.mp hs' with hs' | hs'
        · exact hafter s' hs' hm'
        · rw [mem_singleton.mp hs'] at hm' ⊢
          exact fun hle => hs ⟨hm', hle⟩

/-- The scan finds the best filter. -/
private theorem isBest_scan :
    IsBest ((fromStatements statements).getD none) target (scan statements target) := by
  induction statements using List.reverseRecOn with
  | nil =>
    refine ⟨fun b hb => absurd hb (not_mem_none b), fun p _ hne => absurd ?_ hne⟩
    exact KeyedTree.getD_leaf none p
  | append_singleton statements s ih =>
    have hset : (fromStatements (statements ++ [s])).getD none =
        update ((fromStatements statements).getD none) s.path (some s.level) := by
      funext p
      rw [fromStatements, foldl_append, foldl_cons, foldl_nil, KeyedTree.getD_set, update_apply]
      rfl
    rw [hset, scan_concat]
    exact ih.scanStep s

/-- The lookup and the scan agree. -/
private theorem levelForTarget_fromStatements :
    (fromStatements statements).levelForTarget target =
      (scan statements target).map LogTargetConfig.level := by
  rw [levelForTarget_eq]
  exact (isBest_scan statements target).findSome?_candidates

/-- **The log filter**: the level of a target is that of the statement the scan finds, which is the
most specific one that matches; the scan finds none only if no statement matches. -/
theorem filter_refines_scan :
    (fromStatements statements).levelForTarget target =
        (scan statements target).map LogTargetConfig.level ∧
      ((scan statements target = none ∧ ∀ s ∈ statements, ¬ Matches s.path target) ∨
        ∃ b, scan statements target = some b ∧ MostSpecific statements target b) :=
  ⟨levelForTarget_fromStatements statements target, scan_spec statements target⟩

end Scan

/-- An event passes the filter unless the statement found for its target is less verbose. -/
theorem allows_iff {statements : List LogTargetConfig} {target : String} {level : Level} :
    (fromStatements statements).allows target level ↔
      ∀ b ∈ scan statements (target.splitOn "::"), level.verbosity ≤ b.level.verbosity := by
  rw [allows, levelForTarget_fromStatements]
  cases scan statements (target.splitOn "::") <;> simp

end FilterTrie

end Mm1
