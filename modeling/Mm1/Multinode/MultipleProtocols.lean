import Mm1.Lib.BiMap
import Mm1.Multinode.Waitlist

/-!
# Several protocols on one connection

A connection has a list of protocols. `reduce` makes one protocol of them: it has the codecs of all,
and the keys of all their types. The pairs of a name and a key go one after the other into a map in
both directions, and what `BiMap::insert` overwrites is to tell whether they agree. But it is read
the wrong way: a pair that is there already is refused, and a pair that removes two others is not.

* `insertPairs_spec`: which pairs are accepted, and what is left of them;
* `reduce_exact_iff`: when `reduce` does what it should;
* `reduce_isOk_iff_of_resolved`: protocols of one registry are accepted if no two of them share a
  message type;
* `reduce_shared_type`: two that do.
-/

namespace Mm1

open BiMap Fallible Option List ProtocolRegistry ErasedCodecApi

variable {TypeId : Type} [DecidableEq TypeId] {typeName : TypeId → MessageName}

/-! ### The codecs -/

namespace Protocol

variable {p : Protocol typeName} {c : ErasedCodecApi typeName}

/-- A codec with a new name. -/
def push (p : Protocol typeName) (c : ErasedCodecApi typeName) (hknown : c.tid.isSome = true)
    (hname : c.name ∉ p.codecs.map name) : Protocol typeName where
  codecs := p.codecs ++ [c]
  known := by
    intro c' hc'
    rcases mem_append.mp hc' with hc' | hc'
    · exact p.known c' hc'
    · rwa [mem_singleton.mp hc']
  nodup := by
    rw [map_append, nodup_append]
    refine ⟨p.nodup, nodup_singleton _, ?_⟩
    rintro a ha b hb rfl
    obtain rfl : a = c.name := mem_singleton.mp hb
    exact hname ha

/-- `Protocol::tmp_add_any_codec_really`, of a known codec. It panics if the name is new and the
`TypeId` is not. -/
def tmpAddAnyCodecReally (p : Protocol typeName) (c : ErasedCodecApi typeName)
    (hknown : c.tid.isSome = true) : Option (Protocol typeName) :=
  if hname : c.name ∈ p.codecs.map name then some p
  else if c.tid ∈ p.codecs.map tid then none
  else some (p.push c hknown hname)

/-- `add_outbound_codec` or `add_inbound_codec`, for one codec after the other. -/
def addCodecs (p : Protocol typeName) : (cs : List (ErasedCodecApi typeName)) →
    (∀ c ∈ cs, c.tid.isSome = true) → Option (Protocol typeName)
  | [], _ => some p
  | c :: rest, hknown =>
    (p.tmpAddAnyCodecReally c (hknown c mem_cons_self)).bind fun p =>
      p.addCodecs rest fun c hc => hknown c (mem_cons_of_mem _ hc)

/-- The `TypeId` of a new name is new: a `TypeId` has one name. -/
private theorem tmpAddAnyCodecReally_isSome (hknown : c.tid.isSome = true) :
    (p.tmpAddAnyCodecReally c hknown).isSome = true := by
  rw [tmpAddAnyCodecReally]
  split
  case isTrue => rfl
  case isFalse hname =>
    have hnew : c.tid ∉ p.codecs.map tid := by
      intro hmem
      obtain ⟨c', hc', htid⟩ := mem_map.mp hmem
      obtain ⟨t, ht⟩ := isSome_iff_exists.mp hknown
      refine hname (mem_map.mpr ⟨c', hc', ?_⟩)
      rw [c.name_eq t ht, c'.name_eq t (htid.trans ht)]
    rw [if_neg hnew]
    rfl

private theorem addCodecs_isSome (cs : List (ErasedCodecApi typeName))
    (hknown : ∀ c ∈ cs, c.tid.isSome = true) : (p.addCodecs cs hknown).isSome = true := by
  induction cs generalizing p with
  | nil => rfl
  | cons c cs ih =>
    obtain ⟨p', hp'⟩ := isSome_iff_exists.mp
      (tmpAddAnyCodecReally_isSome (p := p) (hknown c mem_cons_self))
    rw [addCodecs, hp']
    exact ih _

end Protocol

/-! ### The keys -/

/-- How `reduce` ends without a protocol. -/
inductive ReduceFailure where
  /-- `panic!("type-name is unique, but the TypeId is not")` -/
  | panic
  | error (message : String)
  deriving DecidableEq

/-- The pairs of a name and a key. -/
abbrev NameKeys := BiMap MessageName LocalTypeKey

/-- A pair goes into the map, and what it overwrites is looked at. -/
def insertPair (m : NameKeys) (pair : MessageName × LocalTypeKey) :
    Except ReduceFailure NameKeys :=
  match m.insert pair with
  | (.neither, m) => .ok m
  | (.both _ _, m) => .ok m
  | _ => .error (.error "inconsistent name-key mappings")

/-- One pair after the other. -/
def insertPairs (m : NameKeys) :
    List (MessageName × LocalTypeKey) → Except ReduceFailure NameKeys
  | [] => .ok m
  | pair :: rest => do
    let m ← insertPair m pair
    insertPairs m rest

/-- What `reduce` has put together. -/
structure Combined (typeName : TypeId → MessageName) where
  protocol : Protocol typeName
  outbound : NameKeys
  inbound : NameKeys

/-- A turn of the loop of `reduce`. -/
def Combined.add (acc : Combined typeName) (p : ProtocolResolved typeName) :
    Except ReduceFailure (Combined typeName) := do
  let protocol ← (acc.protocol.addCodecs p.protocol.outboundTypes p.protocol.known).elim
    (.error .panic) .ok
  let protocol ← (protocol.addCodecs p.protocol.inboundTypes p.protocol.known).elim
    (.error .panic) .ok
  let outbound ← insertPairs acc.outbound p.outbound
  let inbound ← insertPairs acc.inbound p.inbound
  return ⟨protocol, outbound, inbound⟩

/-- The loop of `reduce`. -/
def Combined.addAll (acc : Combined typeName) :
    List (ProtocolResolved typeName) → Except ReduceFailure (Combined typeName)
  | [] => .ok acc
  | p :: rest => do
    let acc ← acc.add p
    acc.addAll rest

/-- `reduce`. The order in which a map is turned into a list is not specified. -/
def reduce (protocols : List (ProtocolResolved typeName)) :
    Except ReduceFailure (ProtocolResolved typeName) := do
  let combined ← Combined.addAll ⟨.new, .empty, .empty⟩ protocols
  return ⟨combined.protocol, combined.outbound.pairs, combined.inbound.pairs⟩

/-! ### Which pairs are accepted -/

section Pairs

variable {α β : Type*} [DecidableEq α] [DecidableEq β] {pre l : List (α × β)} {pair : α × β}

/-- One of the pairs meets exactly one of those before it that are still there. -/
def Refused (l : List (α × β)) : Prop :=
  ∃ pre pair post, l = pre ++ pair :: post ∧ MeetsOne (standing pre) pair

private theorem Refused.append (h : Refused pre) : Refused (pre ++ l) := by
  obtain ⟨pre', pair, post, rfl, hmeets⟩ := h
  exact ⟨pre', pair, post ++ l, by rw [append_assoc, cons_append], hmeets⟩

private theorem not_refused_nil : ¬ Refused ([] : List (α × β)) := by
  rintro ⟨pre, pair, post, h, -⟩
  exact cons_ne_nil _ _ (append_eq_nil_iff.mp h.symm).2

private theorem refused_concat :
    Refused (l ++ [pair]) ↔ Refused l ∨ MeetsOne (standing l) pair := by
  constructor
  · rintro ⟨pre, pair', post, h, hmeets⟩
    rcases eq_nil_or_concat post with rfl | ⟨post, last, rfl⟩
    · obtain ⟨rfl, heq⟩ := append_inj' h rfl
      obtain rfl := head_eq_of_cons_eq heq
      exact .inr hmeets
    · rw [concat_eq_append, ← cons_append, ← append_assoc] at h
      exact .inl ⟨pre, pair', post, (append_inj' h rfl).1, hmeets⟩
  · rintro (h | h)
    · exact h.append
    · exact ⟨l, pair, [], rfl, h⟩

/-- **Pairs that do not meet are accepted.** -/
theorem not_refused_of_distinct (h : Distinct l) : ¬ Refused l := by
  rintro ⟨pre, pair, post, rfl, hmeets⟩
  obtain ⟨hpre, -, hdistinct⟩ := pairwise_append.mp h
  rw [standing_of_distinct hpre] at hmeets
  obtain ⟨q, ⟨hq, hmeets⟩, -⟩ := hmeets
  exact hdistinct q hq pair mem_cons_self hmeets

/-- If the pairs are one-to-one, two that meet are the same, and the second one is refused. -/
private theorem distinct_of_not_refused (hone : OneToOne l) (h : ¬ Refused l) : Distinct l := by
  induction l using List.reverseRecOn with
  | nil => exact List.Pairwise.nil
  | append_singleton l pair ih =>
    obtain ⟨hl, hmeets⟩ := not_or.mp (refused_concat.not.mp h)
    have hdistinct := ih (fun p hp q hq => hone p (mem_append_left _ hp) q
      (mem_append_left _ hq)) hl
    rw [standing_of_distinct hdistinct] at hmeets
    have hsame : ∀ q ∈ l, Meets q pair → q = pair := fun q hq => hone q
      (mem_append_left _ hq) pair (mem_append_right _ mem_cons_self)
    refine distinct_concat.mpr ⟨hdistinct, fun q hq hqp => hmeets ⟨q, ⟨hq, hqp⟩, ?_⟩⟩
    rintro q' ⟨hq', hqp'⟩
    rw [hsame q hq hqp, hsame q' hq' hqp']

end Pairs

/-- `Err(eyre::format_err!("inconsistent name-key mappings"))` -/
abbrev inconsistent : ReduceFailure := .error "inconsistent name-key mappings"

variable {m : NameKeys} {pair : MessageName × LocalTypeKey}
  {pre l : List (MessageName × LocalTypeKey)} {pairs : List (MessageName × LocalTypeKey)}
  {cs : List (ErasedCodecApi typeName)}

/-- One pair is added, or is refused. -/
private theorem insertPair_spec (m : NameKeys) (pair : MessageName × LocalTypeKey) :
    Ensures (fun e => e = inconsistent ∧ MeetsOne m.pairs pair)
      (fun m' => ¬ MeetsOne m.pairs pair ∧
        m'.pairs = m.pairs.filter (fun q => ¬ Meets q pair) ++ [pair]) (insertPair m pair) := by
  have hspec := m.overwritten_spec pair
  rw [insertPair, BiMap.insert]
  cases hover : m.overwritten pair with
  | neither =>
    rw [hover] at hspec
    refine ⟨?_, rfl⟩
    rintro ⟨q, ⟨hq, hmeets⟩, -⟩
    exact hspec q hq hmeets
  | both q q' =>
    rw [hover] at hspec
    refine ⟨?_, rfl⟩
    obtain ⟨hq, hq', hne⟩ := hspec
    exact fun hone => hne (hone.unique hq hq')
  | left q | right q | pair q =>
    rw [hover] at hspec
    exact ⟨rfl, hspec⟩

/-- **Which pairs are accepted**, and what is left of them. -/
theorem insertPairs_spec (hm : m.pairs = standing pre) (hpre : ¬ Refused pre)
    (l : List (MessageName × LocalTypeKey)) :
    Ensures (fun e => e = inconsistent ∧ Refused (pre ++ l))
      (fun m' => m'.pairs = standing (pre ++ l) ∧ ¬ Refused (pre ++ l)) (insertPairs m l) := by
  induction l generalizing m pre with
  | nil => exact ⟨by rw [append_nil, hm], by rwa [append_nil]⟩
  | cons pair l ih =>
    rw [append_cons, insertPairs]
    refine ((insertPair_spec m pair).mono_error ?_).bind ?_
    · rintro e ⟨rfl, hmeets⟩
      rw [hm] at hmeets
      exact ⟨rfl, (refused_concat.mpr (.inr hmeets)).append⟩
    · rintro m' ⟨hmeets, hm'⟩
      rw [hm] at hmeets hm'
      exact ih (hm'.trans standing_concat.symm) fun h => (refused_concat.mp h).elim hpre hmeets

/-! ### What is put together -/

/-- The pairs of all outbound types. -/
def outbounds (protocols : List (ProtocolResolved typeName)) :
    List (MessageName × LocalTypeKey) := protocols.flatMap ProtocolResolved.outbound

/-- The pairs of all inbound types. -/
def inbounds (protocols : List (ProtocolResolved typeName)) :
    List (MessageName × LocalTypeKey) := protocols.flatMap ProtocolResolved.inbound

/-- The pairs that have been put together are those of two lists. -/
structure Combined.Holds (acc : Combined typeName)
    (outbound inbound : List (MessageName × LocalTypeKey)) : Prop where
  outbound_eq : acc.outbound.pairs = standing outbound
  inbound_eq : acc.inbound.pairs = standing inbound
  outbound_accepted : ¬ Refused outbound
  inbound_accepted : ¬ Refused inbound

namespace Combined

variable {acc : Combined typeName} {outbound inbound : List (MessageName × LocalTypeKey)}

/-- One more protocol is added, or is refused. -/
private theorem add_spec (h : acc.Holds outbound inbound) (p : ProtocolResolved typeName) :
    Ensures
      (fun e => e = inconsistent ∧
        (Refused (outbound ++ p.outbound) ∨ Refused (inbound ++ p.inbound)))
      (fun acc' => acc'.Holds (outbound ++ p.outbound) (inbound ++ p.inbound)) (acc.add p) := by
  obtain ⟨protocol₁, h₁⟩ := isSome_iff_exists.mp
    (acc.protocol.addCodecs_isSome p.protocol.outboundTypes p.protocol.known)
  obtain ⟨protocol₂, h₂⟩ := isSome_iff_exists.mp
    (protocol₁.addCodecs_isSome p.protocol.inboundTypes p.protocol.known)
  rw [add, h₁]
  dsimp only [Option.elim, bind, Except.bind]
  rw [h₂]
  dsimp only
  refine ((insertPairs_spec h.outbound_eq h.outbound_accepted p.outbound).mono_error ?_).bind ?_
  · exact fun e he => ⟨he.1, .inl he.2⟩
  · rintro out ⟨hout, haccepted⟩
    refine ((insertPairs_spec h.inbound_eq h.inbound_accepted p.inbound).mono_error ?_).bind ?_
    · exact fun e he => ⟨he.1, .inr he.2⟩
    · rintro inb ⟨hin, haccepted'⟩
      exact ⟨hout, hin, haccepted, haccepted'⟩

/-- The loop of `reduce`. -/
private theorem addAll_spec (h : acc.Holds outbound inbound)
    (protocols : List (ProtocolResolved typeName)) :
    Ensures
      (fun e => e = inconsistent ∧
        (Refused (outbound ++ outbounds protocols) ∨ Refused (inbound ++ inbounds protocols)))
      (fun acc' => acc'.Holds (outbound ++ outbounds protocols) (inbound ++ inbounds protocols))
      (acc.addAll protocols) := by
  induction protocols generalizing acc outbound inbound with
  | nil =>
    rw [outbounds, inbounds, flatMap_nil, flatMap_nil, append_nil, append_nil]
    exact h
  | cons p rest ih =>
    rw [outbounds, inbounds, flatMap_cons, flatMap_cons, ← append_assoc, ← append_assoc, addAll]
    refine ((add_spec h p).mono_error ?_).bind fun acc' hacc' => ih hacc'
    rintro e ⟨rfl, he⟩
    exact ⟨rfl, he.imp Refused.append Refused.append⟩

end Combined

/-- When `reduce` fails, and its result. -/
theorem reduce_spec (protocols : List (ProtocolResolved typeName)) :
    Ensures
      (fun e => e = inconsistent ∧ (Refused (outbounds protocols) ∨ Refused (inbounds protocols)))
      (fun r => r.outbound = standing (outbounds protocols) ∧
        r.inbound = standing (inbounds protocols) ∧
        ¬ (Refused (outbounds protocols) ∨ Refused (inbounds protocols))) (reduce protocols) := by
  have hstart : (⟨.new, .empty, .empty⟩ : Combined typeName).Holds [] [] :=
    ⟨rfl, rfl, not_refused_nil, not_refused_nil⟩
  refine (Combined.addAll_spec hstart protocols).bind fun acc hacc => ?_
  exact ⟨hacc.outbound_eq, hacc.inbound_eq,
    not_or.mpr ⟨hacc.outbound_accepted, hacc.inbound_accepted⟩⟩

private theorem reduce_isOk_iff (protocols : List (ProtocolResolved typeName)) :
    (∃ r, reduce protocols = .ok r) ↔
      ¬ (Refused (outbounds protocols) ∨ Refused (inbounds protocols)) := by
  have hspec := reduce_spec protocols
  cases hreduce : reduce protocols with
  | ok r => exact iff_of_true ⟨r, rfl⟩ (hspec.of_ok hreduce).2.2
  | error e =>
    refine iff_of_false ?_ (not_not.mpr (hspec.of_error hreduce).2)
    rintro ⟨r, hr⟩
    contradiction

/-- `reduce` succeeds if and only if the outbound pairs relate each name to one key and each key to
one name, and the inbound pairs do so, too; and then its result has those pairs and no others. -/
def ReducesExactly (protocols : List (ProtocolResolved typeName)) : Prop :=
  ((∃ r, reduce protocols = .ok r) ↔
      OneToOne (outbounds protocols) ∧ OneToOne (inbounds protocols)) ∧
    ∀ r, reduce protocols = .ok r →
      (∀ pair, pair ∈ r.outbound ↔ pair ∈ outbounds protocols) ∧
        ∀ pair, pair ∈ r.inbound ↔ pair ∈ inbounds protocols

/-- **When `reduce` does what it should.** Either no name and no key is there twice, among the
outbound pairs and among the inbound pairs. Or some of them disagree, and in one direction there is
a pair that meets exactly one of those before it that are still there. -/
theorem reduce_exact_iff (protocols : List (ProtocolResolved typeName)) :
    ReducesExactly protocols ↔
      (Distinct (outbounds protocols) ∧ Distinct (inbounds protocols)) ∨
        ¬ (OneToOne (outbounds protocols) ∧ OneToOne (inbounds protocols)) ∧
          (Refused (outbounds protocols) ∨ Refused (inbounds protocols)) := by
  rw [ReducesExactly, reduce_isOk_iff]
  constructor
  · rintro ⟨hiff, -⟩
    by_cases hrefused : Refused (outbounds protocols) ∨ Refused (inbounds protocols)
    · exact .inr ⟨fun hone => hiff.mpr hone hrefused, hrefused⟩
    · obtain ⟨hout, hin⟩ := hiff.mp hrefused
      obtain ⟨hout', hin'⟩ := not_or.mp hrefused
      exact .inl ⟨distinct_of_not_refused hout hout', distinct_of_not_refused hin hin'⟩
  · rintro (⟨hout, hin⟩ | ⟨hnot, hrefused⟩)
    · have haccepted := not_or.mpr ⟨not_refused_of_distinct hout, not_refused_of_distinct hin⟩
      refine ⟨iff_of_true haccepted ⟨hout.oneToOne, hin.oneToOne⟩, fun r hr => ?_⟩
      obtain ⟨hrout, hrin, -⟩ := (reduce_spec protocols).of_ok hr
      rw [hrout, hrin, standing_of_distinct hout, standing_of_distinct hin]
      exact ⟨fun _ => Iff.rfl, fun _ => Iff.rfl⟩
    · refine ⟨iff_of_false (not_not.mpr hrefused) hnot, fun r hr => ?_⟩
      exact absurd hrefused ((reduce_spec protocols).of_ok hr).2.2

/-! ### Protocols of one registry -/

section Registry

variable {slots : Roster.Slots LocalTypeKey} {r r' : ProtocolRegistry typeName}
  {p : ProtocolResolved typeName} {protocols : List (ProtocolResolved typeName)}

/-- The pairs are those of the codecs, with the keys of the registry. -/
def ProtocolRegistry.Keys (r : ProtocolRegistry typeName) (cs : List (ErasedCodecApi typeName))
    (pairs : List (MessageName × LocalTypeKey)) : Prop :=
  pairs.map Prod.fst = cs.map name ∧
    ∀ pair ∈ pairs, r.codecByName pair.1 = some pair.2

/-- The protocol has been resolved by the registry, now or before. -/
structure ProtocolRegistry.Resolved (r : ProtocolRegistry typeName)
    (p : ProtocolResolved typeName) : Prop where
  outbound : r.Keys p.protocol.outboundTypes p.outbound
  inbound : r.Keys p.protocol.inboundTypes p.inbound

namespace ProtocolRegistry

omit [DecidableEq TypeId] in
private theorem Keys.mono (h : r.Keys cs pairs) (hgrows : Grows r r') : r'.Keys cs pairs :=
  ⟨h.1, fun pair hpair => hgrows.names _ _ (h.2 pair hpair)⟩

omit [DecidableEq TypeId] in
theorem Keys.exists_mem {c : ErasedCodecApi typeName} (h : r.Keys cs pairs) (hc : c ∈ cs) :
    ∃ k, (c.name, k) ∈ pairs := by
  have hname : c.name ∈ pairs.map Prod.fst := h.1 ▸ mem_map_of_mem hc
  obtain ⟨⟨name, k⟩, hpair, rfl⟩ := mem_map.mp hname
  exact ⟨k, hpair⟩

omit [DecidableEq TypeId] in
theorem Keys.mem_iff (h : r.Keys cs pairs) {pair : MessageName × LocalTypeKey} :
    pair ∈ pairs ↔ ∃ c ∈ cs, c.name = pair.1 ∧ r.codecByName c.name = some pair.2 := by
  constructor
  · intro hpair
    have hname : pair.1 ∈ cs.map name := h.1 ▸ mem_map_of_mem hpair
    obtain ⟨c, hc, heq⟩ := mem_map.mp hname
    exact ⟨c, hc, heq, heq ▸ h.2 pair hpair⟩
  · rintro ⟨c, hc, hname, hk⟩
    obtain ⟨k, hpair⟩ := h.exists_mem hc
    -- the name has one key
    have hkey : k = pair.2 := some.inj ((h.2 _ hpair).symm.trans hk)
    rwa [hname, hkey] at hpair

omit [DecidableEq TypeId] in
theorem Resolved.mono (h : r.Resolved p) (hgrows : Grows r r') : r'.Resolved p :=
  ⟨h.outbound.mono hgrows, h.inbound.mono hgrows⟩

/-- The keys of the types of a protocol. -/
theorem registerMessages_keys (hinv : r.Inv) (cs : List (ErasedCodecApi typeName)) :
    Ensures (· = .full) (fun res => res.2.Inv ∧ Grows r res.2 ∧ res.2.Keys cs res.1)
      (r.registerMessages slots cs) := by
  induction cs generalizing r with
  | nil => exact ⟨hinv, .refl r, rfl, fun pair hpair => absurd hpair not_mem_nil⟩
  | cons c cs ih =>
    rw [registerMessages]
    refine (registerMessage_spec hinv).bind ?_
    rintro ⟨k, r₁⟩ hreg
    refine (ih (hreg.inv hinv)).bind ?_
    rintro ⟨pairs, r₂⟩ ⟨hinv₂, hgrows, hnames, hkeys⟩
    refine ⟨hinv₂, (hreg.grows hinv).trans hgrows, ?_, ?_⟩
    · exact congrArg (c.name :: ·) hnames
    · exact forall_mem_cons.mpr ⟨hgrows.names _ _ (hreg.codecByName hinv), hkeys⟩

/-- What the registry resolves. -/
theorem resolve_resolved (hinv : r.Inv) (protocol : Protocol typeName) :
    Ensures (· = .full)
      (fun res => res.1.protocol = protocol ∧ res.2.Inv ∧ Grows r res.2 ∧ res.2.Resolved res.1)
      (r.resolve slots protocol) := by
  rw [resolve]
  refine (registerMessages_keys hinv _).bind ?_
  rintro ⟨outbound, r₁⟩ ⟨hinv₁, hgrows₁, hout⟩
  refine (registerMessages_keys hinv₁ _).bind ?_
  rintro ⟨inbound, r₂⟩ ⟨hinv₂, hgrows₂, hin⟩
  exact ⟨rfl, hinv₂, hgrows₁.trans hgrows₂, hout.mono hgrows₂, hin⟩

omit [DecidableEq TypeId] in
/-- The keys of a registry are one-to-one. -/
private theorem Inv.oneToOne (hinv : r.Inv)
    (h : ∀ pair ∈ pairs, r.codecByName pair.1 = some pair.2) : OneToOne pairs := by
  intro p hp q hq hmeets
  have hpk := h p hp
  have hqk := h q hq
  rcases hmeets with heq | heq
  · rw [heq, hqk] at hpk
    exact Prod.ext heq (some.inj hpk).symm
  · obtain ⟨c, hc, hname⟩ := (hinv.names _ _).mp hpk
    obtain ⟨c', hc', hname'⟩ := (hinv.names _ _).mp hqk
    rw [heq, hc'] at hc
    obtain rfl := some.inj hc
    exact Prod.ext (hname.symm.trans hname') heq

end ProtocolRegistry

/-- One-to-one pairs do not meet if their names differ. -/
private theorem distinct_iff_nodup (h : OneToOne pairs) :
    Distinct pairs ↔ (pairs.map Prod.fst).Nodup := by
  rw [List.Nodup, pairwise_map]
  refine List.Pairwise.iff_of_mem fun {p q} hp hq => not_congr ?_
  exact ⟨fun hmeets => congrArg Prod.fst (h p hp q hq hmeets), .inl⟩

/-- One-to-one pairs are accepted if and only if no name is there twice. -/
private theorem refused_iff_of_oneToOne (h : OneToOne pairs) :
    ¬ Refused pairs ↔ (pairs.map Prod.fst).Nodup := by
  rw [← distinct_iff_nodup h]
  exact ⟨distinct_of_not_refused h, not_refused_of_distinct⟩

omit [DecidableEq TypeId] in
/-- The keys of protocols of one registry agree. -/
private theorem oneToOne_of_resolved (hinv : r.Inv) (h : ∀ p ∈ protocols, r.Resolved p) :
    OneToOne (outbounds protocols) ∧ OneToOne (inbounds protocols) := by
  constructor
  · refine hinv.oneToOne fun pair hpair => ?_
    obtain ⟨p, hp, hpair⟩ := mem_flatMap.mp hpair
    exact (h p hp).outbound.2 pair hpair
  · refine hinv.oneToOne fun pair hpair => ?_
    obtain ⟨p, hp, hpair⟩ := mem_flatMap.mp hpair
    exact (h p hp).inbound.2 pair hpair

/-- **Protocols of one registry** are accepted if and only if no two of them share a message
type. -/
theorem reduce_isOk_iff_of_resolved (hinv : r.Inv) (h : ∀ p ∈ protocols, r.Resolved p) :
    (∃ res, reduce protocols = .ok res) ↔
      (protocols.flatMap fun p => p.protocol.codecs.map name).Nodup := by
  obtain ⟨hout, hin⟩ := oneToOne_of_resolved hinv h
  rw [reduce_isOk_iff, not_or, refused_iff_of_oneToOne hout, refused_iff_of_oneToOne hin,
    outbounds, inbounds, map_flatMap, map_flatMap,
    flatMap_congr fun p hp => (h p hp).outbound.1,
    flatMap_congr fun p hp => (h p hp).inbound.1]
  exact and_self_iff

end Registry

/-- Two message types. -/
def sampleName (t : Bool) : MessageName := if t then "extra" else "shared"

/-- **Two protocols that share a message type.** Both are registered, and their keys agree; and yet
`reduce` fails. -/
theorem reduce_shared_type :
    ∃ (s : Run sampleName) (first second : Protocol sampleName)
      (p₁ p₂ : ProtocolResolved sampleName) (r₁ r₂ : ProtocolRegistry sampleName),
      Runs numbered s ∧
      s.state.protocolByName "first" = some first ∧
      s.state.protocolByName "second" = some second ∧
      s.state.resolve numbered first = .ok (p₁, r₁) ∧
      r₁.resolve numbered second = .ok (p₂, r₂) ∧
      OneToOne (outbounds [p₁, p₂]) ∧ OneToOne (inbounds [p₁, p₂]) ∧
      reduce [p₁, p₂] = .error (.error "inconsistent name-key mappings") := by
  have hreach : Runs numbered (_ : Run sampleName) :=
    Transition.reaches_get [.registerProtocol "first" (Protocol.new.addType false),
      .registerProtocol "second" ((Protocol.new.addType false).addType true)] rfl
  obtain ⟨-, hinv₁, -, hp₁⟩ := (resolve_resolved
    (inv_of_runs hreach).1 (Protocol.new.addType false)).of_ok
      (show ProtocolRegistry.resolve numbered _ _ = .ok (_, _) from rfl)
  obtain ⟨-, hinv₂, hgrows, hp₂⟩ := (resolve_resolved hinv₁
    ((Protocol.new.addType false).addType true)).of_ok
      (show ProtocolRegistry.resolve numbered _ _ = .ok (_, _) from rfl)
  obtain ⟨hout, hin⟩ := oneToOne_of_resolved hinv₂
    (forall_mem_cons.mpr ⟨hp₁.mono hgrows, forall_mem_singleton.mpr hp₂⟩)
  exact ⟨_, _, _, _, _, _, _, hreach, rfl, rfl, rfl, rfl, hout, hin, rfl⟩

end Mm1
