import Mm1.Address.Text
import Mm1.Config.ActorConfig
import Mm1.Lib.Fallible
import Mm1.Lib.Roster
import Mm1.Runtime.Extent

/-!
# The validation of a node's configuration

`validate` collects all errors of a configuration (`validation.rs`), and everything after it relies
on there being none: the runtimes are built from the configuration and each actor is started on
the one its settings name (`choose_executor` expects it to be there), addresses come from the one
subnet of kind `auto`.

* `errors_eq_nil_iff`: what a configuration without errors is;
* `Valid.runtimesServed`: every actor finds a runtime, and it has a time driver;
* `Valid.disjoint_iff`: the local subnets have ranges that do not overlap, so they are disjoint
  unless the address of one lies in the block of another, before the address of that one;
* `Valid.exists_auto`: there is a subnet of kind `auto`, and the other ones are of kind `bind`.
-/

namespace Mm1

open OrderedMap Fallible List AddressRange

/-! ### Runtimes -/

/-- The settings of a runtime. -/
structure RtConfig where
  workerThreads : ℕ
  blockingThreadsMax : ℕ
  blockingThreadKeepAlive : ℕ
  threadStackSize : ℕ
  enableIo : Bool
  enableTime : Bool
  deriving DecidableEq

/-- The default runtime, which need not be configured, and those with a name. -/
structure RtConfigs where
  default : Option RtConfig
  named : Roster String RtConfig

/-- A tokio runtime, as the settings it was built with; `none` is left to tokio. -/
structure Runtime where
  threadName : String
  workerThreads : Option ℕ := none
  maxBlockingThreads : Option ℕ := none
  threadKeepAlive : Option ℕ := none
  threadStackSize : Option ℕ := none
  enableIo : Bool
  enableTime : Bool
  deriving DecidableEq

/-- How building a runtime fails. -/
inductive BuildFailure where
  /-- The builder panics if there are to be no workers, or no threads for blocking calls. -/
  | noThreads
  /-- The operating system refuses. -/
  | io
  deriving DecidableEq

/-- `Builder::build`. Whether the operating system goes along is not known. -/
def Runtime.build (grants : Runtime → Bool) (rt : Runtime) : Except BuildFailure Runtime :=
  if grants rt then .ok rt else .error .io

/-- `build_runtime`. -/
def RtConfig.buildRuntime (grants : Runtime → Bool) (c : RtConfig) (threadName : String) :
    Except BuildFailure Runtime :=
  if c.workerThreads = 0 ∨ c.blockingThreadsMax = 0 then .error .noThreads
  else Runtime.build grants {
    threadName
    workerThreads := some c.workerThreads
    maxBlockingThreads := some c.blockingThreadsMax
    threadKeepAlive := some c.blockingThreadKeepAlive
    threadStackSize := some c.threadStackSize
    enableIo := c.enableIo
    enableTime := c.enableTime }

/-- `choose_executor` of the runtimes that a node was created with. `none` is its `expect`. -/
def chooseExecutor (rts : Runtime × Roster String Runtime) : Option String → Option Runtime
  | some key => rts.2.lookup key
  | none => some rts.1

/-- The errors of a configuration. -/
inductive ConfigError where
  | invalidRtKeys (keys : List String)
  | defaultTimeDisabled
  | namedTimeDisabled (name : String)
  | notOneAuto
  | overlap (this that : NetAddress)
  deriving DecidableEq

/-- The text of an error; `quote` is `Debug` of strings, and `none` is a panic. -/
def ConfigError.display (quote : String → String) : ConfigError → Option String
  | invalidRtKeys keys =>
    some ("invalid rt-keys: [" ++ String.intercalate ", " (keys.map quote) ++ "]")
  | defaultTimeDisabled => some "runtime `default` must have `enable_time: true`"
  | namedTimeDisabled name =>
    some ("runtime `" ++ name ++ "` selected by actor config must have `enable_time: true`")
  | notOneAuto => some "exactly one local-subnet with kind:auto must be defined"
  | overlap this that => do return (← this.display) ++ " overlaps with " ++ (← that.display)

namespace RtConfigs

/-- The default runtime of `build_runtimes`. If it is not configured, all drivers are enabled. -/
def buildDefault (grants : Runtime → Bool) : Option RtConfig → Except BuildFailure Runtime
  | some c => c.buildRuntime grants "default"
  | none => Runtime.build grants { threadName := "default", enableIo := true, enableTime := true }

/-- `build_runtimes`: the default runtime and the named ones, up to the first failure. -/
def buildRuntimes (grants : Runtime → Bool) (c : RtConfigs) :
    Except BuildFailure (Runtime × Roster String Runtime) := do
  let rt ← buildDefault grants c.default
  let named ← c.named.entries.foldlM
    (fun named e => do return named.put e.1 (← e.2.buildRuntime grants e.1)) Roster.empty
  return (rt, named)

/-- `runtime_keys`. -/
def runtimeKeys (c : RtConfigs) : List String := c.named.entries.map Prod.fst

/-- `time_driver_validation_errors`. -/
def timeDriverValidationErrors (c : RtConfigs) (usedRuntimeKeys : List String) :
    List ConfigError :=
  (if c.default.any (fun c => !c.enableTime) then [.defaultTimeDisabled] else []) ++
    (usedRuntimeKeys.filter fun name => (c.named.lookup name).any fun c => !c.enableTime).map
      .namedTimeDisabled

end RtConfigs

/-! ### What is built -/

section Build

variable {grants : Runtime → Bool} {c : RtConfigs}

private theorem RtConfig.buildRuntime_spec (c : RtConfig) (name : String) :
    Ensures (fun _ => True) (fun rt => rt.enableTime = c.enableTime)
      (c.buildRuntime grants name) := by
  unfold buildRuntime Runtime.build
  split_ifs
  · trivial
  · rfl
  · trivial

private theorem RtConfigs.buildDefault_spec (d : Option RtConfig) :
    Ensures (fun _ => True) (fun rt => (∀ c ∈ d, c.enableTime) → rt.enableTime)
      (buildDefault grants d) := by
  cases d with
  | none =>
    rw [buildDefault, Runtime.build]
    split_ifs
    · exact fun _ => rfl
    · trivial
  | some c =>
    refine (c.buildRuntime_spec "default").mono fun rt hrt hc => ?_
    rw [hrt]
    exact hc c rfl

/-- The loop over the named runtimes: those still to come are built, the others stay. -/
private theorem foldlM_buildRuntime_spec {es : List (String × RtConfig)}
    (hes : (es.map Prod.fst).Nodup) (named : Roster String Runtime) :
    Ensures (fun _ => True)
      (fun r : Roster String Runtime =>
        (∀ e ∈ es, ∃ rt, r.lookup e.1 = some rt ∧ rt.enableTime = e.2.enableTime) ∧
          ∀ k ∉ es.map Prod.fst, r.lookup k = named.lookup k)
      (es.foldlM (fun named e => do return named.put e.1 (← e.2.buildRuntime grants e.1))
        named) := by
  induction es generalizing named with
  | nil => exact ⟨fun e he => absurd he not_mem_nil, fun _ _ => rfl⟩
  | cons e es ih =>
    obtain ⟨he, hes⟩ := nodup_cons.mp hes
    rw [foldlM_cons]
    refine ((e.2.buildRuntime_spec e.1).bind fun rt hrt => ?_).bind
      fun r (hr : ∃ rt, r = named.put e.1 rt ∧ rt.enableTime = e.2.enableTime) => ?_
    · exact ⟨rt, rfl, hrt⟩
    · obtain ⟨rt, rfl, hrt⟩ := hr
      refine (ih hes _).mono fun r ⟨hin, hout⟩ => ⟨?_, fun k hk => ?_⟩
      · refine forall_mem_cons.mpr ⟨⟨rt, ?_, hrt⟩, hin⟩
        rw [hout _ he, Roster.lookup_put, if_pos rfl]
      · rw [map_cons, mem_cons, not_or] at hk
        rw [hout k hk.2, Roster.lookup_put, if_neg hk.1]

/-- **Every configured runtime is built**, with a time driver if it is to have one. -/
theorem RtConfigs.buildRuntimes_spec :
    Ensures (fun _ => True)
      (fun rts => ((∀ d ∈ c.default, d.enableTime) → rts.1.enableTime) ∧
        ∀ k cfg, c.named.lookup k = some cfg →
          ∃ rt, rts.2.lookup k = some rt ∧ rt.enableTime = cfg.enableTime)
      (c.buildRuntimes grants) := by
  rw [buildRuntimes]
  refine (buildDefault_spec c.default).bind fun rt hrt => ?_
  refine (foldlM_buildRuntime_spec c.named.nodup _).bind fun named hnamed => ⟨hrt, ?_⟩
  intro k cfg hk
  exact hnamed.1 (k, cfg) (Roster.lookup_eq_some_iff.mp hk)

end Build

/-! ### The configuration of a node -/

inductive LocalSubnetKind where
  | auto
  | bind
  deriving DecidableEq

structure DefLocalSubnet where
  net : NetAddress
  kind : LocalSubnetKind
  deriving DecidableEq

structure Mm1NodeConfig where
  localSubnets : List DefLocalSubnet
  actor : ActorConfigNode
  runtime : RtConfigs

/-- The nets that were seen, and the conflicts that were found. -/
structure OverlapCheck where
  nets : List (AddressRange × Unit)
  conflicts : List ConfigError

/-- One local subnet of the loop of `try_from`. -/
def OverlapCheck.step (s : OverlapCheck) (this : NetAddress) : OverlapCheck :=
  match entry AddressRange.cmp (.ofNet this) s.nets with
  | some (that, _) => { s with conflicts := s.conflicts ++ [.overlap this (.ofRange that)] }
  | none => { s with nets := insert AddressRange.cmp (.ofNet this) () s.nets }

namespace Mm1NodeConfig

/-- The addresses of the local subnets. -/
def nets (c : Mm1NodeConfig) : List NetAddress := c.localSubnets.map DefLocalSubnet.net

/-- The local subnets of kind `auto`. -/
def autos (c : Mm1NodeConfig) : List DefLocalSubnet :=
  c.localSubnets.filter fun d => d.kind = .auto

/-- The errors that `try_from` collects. -/
def errors (c : Mm1NodeConfig) : List ConfigError :=
  let runtimeKeysErrors := match c.actor.ensureRuntimeKeysAreValid c.runtime.runtimeKeys with
    | .ok () => []
    | .error keys => [.invalidRtKeys keys]
  let timeErrors := c.runtime.timeDriverValidationErrors c.actor.runtimeKeys
  let autoErrors := if c.autos.length ≠ 1 then [.notOneAuto] else []
  let overlaps := (c.nets.foldl OverlapCheck.step ⟨[], []⟩).conflicts
  runtimeKeysErrors ++ timeErrors ++ autoErrors ++ overlaps

/-- `Default`, with `defaults::local_subnets`. -/
def default : Mm1NodeConfig where
  localSubnets := [
    ⟨⟨⟨0xFFF8000000000000#64⟩, ⟨13, by decide⟩⟩, .auto⟩,
    ⟨⟨⟨0xFFF0000000000000#64⟩, ⟨13, by decide⟩⟩, .bind⟩]
  actor := .node {} []
  runtime := ⟨none, .empty⟩

end Mm1NodeConfig

/-- `Valid<Mm1NodeConfig>`, which only `validate` makes. -/
structure Valid where
  config : Mm1NodeConfig
  errors_eq_nil : config.errors = []

structure ValidationError where
  errors : List ConfigError
  rejected : Mm1NodeConfig

/-- The text of a rejection. -/
def ValidationError.display (quote : String → String) (e : ValidationError) : Option String :=
  (e.errors.mapM (ConfigError.display quote)).map fun lines =>
    "validation error:\n" ++ String.intercalate "\n-" lines

/-- `validate`. -/
def Mm1NodeConfig.validate (c : Mm1NodeConfig) : Except ValidationError Valid :=
  if h : c.errors = [] then .ok ⟨c, h⟩ else .error ⟨c.errors, c⟩

namespace Valid

/-- `actor_config`. -/
def actorConfig (v : Valid) (key : ActorKey) : ActorConfig := v.config.actor.select key

/-- `build_runtimes`. -/
def buildRuntimes (v : Valid) (grants : Runtime → Bool) :
    Except BuildFailure (Runtime × Roster String Runtime) :=
  v.config.runtime.buildRuntimes grants

/-- `local_subnet_address_auto`. `none` is its `expect`. -/
def localSubnetAddressAuto (v : Valid) : Option NetAddress :=
  (v.config.localSubnets.find? fun d => d.kind = .auto).map DefLocalSubnet.net

/-- `local_subnet_addresses_bind`. -/
def localSubnetAddressesBind (v : Valid) : List NetAddress :=
  v.config.localSubnets.filterMap fun d => if d.kind = .bind then some d.net else none

end Valid

/-! ### What a configuration without errors is -/

private theorem ActorConfigNode.ensureRuntimeKeysAreValid_eq_ok_iff {root : ActorConfigNode}
    {keys : List String} :
    root.ensureRuntimeKeysAreValid keys = .ok () ↔ ∀ k ∈ root.runtimeKeys, k ∈ keys := by
  rw [ensureRuntimeKeysAreValid]
  simp only [ite_eq_left_iff, reduceCtorEq, imp_false, not_not, filter_eq_nil_iff,
    decide_eq_true_eq]

private theorem RtConfigs.timeDriverValidationErrors_eq_nil_iff {c : RtConfigs}
    {used : List String} :
    c.timeDriverValidationErrors used = [] ↔ (∀ d ∈ c.default, d.enableTime) ∧
      ∀ k ∈ used, ∀ cfg ∈ c.named.lookup k, cfg.enableTime := by
  rw [timeDriverValidationErrors, append_eq_nil_iff, map_eq_nil_iff,
    filter_eq_nil_iff]
  refine and_congr ?_ (forall₂_congr fun k _ => ?_)
  · cases c.default <;> simp
  · cases c.named.lookup k <;> simp

variable {seen : List NetAddress} {s : OverlapCheck}

namespace OverlapCheck

/-- What the loop knows of the nets it has seen. -/
structure Seen (s : OverlapCheck) (seen : List NetAddress) : Prop where
  sorted : Sorted AddressRange.cmp s.nets
  apart : s.conflicts = [] ↔
    seen.Pairwise fun n n' => AddressRange.cmp (.ofNet n) (.ofNet n') ≠ .eq
  mem : s.conflicts = [] → ∀ r, (r, ()) ∈ s.nets ↔ ∃ n ∈ seen, .ofNet n = r

private theorem pairwise_concat {R : NetAddress → NetAddress → Prop} {this : NetAddress} :
    (seen ++ [this]).Pairwise R ↔ seen.Pairwise R ∧ ∀ n ∈ seen, R n this := by
  rw [pairwise_append]
  simp only [pairwise_singleton, mem_singleton, forall_eq, true_and]

/-- The walk over the subnets. -/
private theorem Seen.step (h : s.Seen seen) (this : NetAddress) :
    (s.step this).Seen (seen ++ [this]) := by
  rw [OverlapCheck.step]
  cases he : entry AddressRange.cmp (.ofNet this) s.nets with
  | some e =>
    -- a conflict, and the nets seen before were apart or not
    obtain ⟨hmem, heq⟩ := mem_of_entry he
    have hne : s.conflicts ++ [.overlap this (.ofRange e.1)] ≠ [] := by simp
    refine ⟨h.sorted, iff_of_false hne fun hapart => ?_, fun hnil => absurd hnil hne⟩
    obtain ⟨hseen, hthis⟩ := pairwise_concat.mp hapart
    obtain ⟨n, hn, hr⟩ := (h.mem (h.apart.mpr hseen) e.1).mp hmem
    rw [← hr] at heq
    exact hthis n hn (cmp_comm.mp heq)
  | none =>
    have hfree : ∀ e ∈ s.nets, AddressRange.cmp (.ofNet this) e.1 ≠ .eq := by
      intro e hmem heq
      have hsome := (isSome_entry_iff h.sorted).mpr ⟨e, hmem, heq⟩
      rw [he] at hsome
      contradiction
    refine ⟨sorted_insert_of_apart h.sorted hfree, ?_, fun hnil r => ?_⟩
    · rw [pairwise_concat, ← h.apart]
      refine ⟨fun hnil => ⟨hnil, fun n hn heq => ?_⟩, fun hboth => hboth.1⟩
      exact hfree _ ((h.mem hnil _).mpr ⟨n, hn, rfl⟩) (cmp_comm.mp heq)
    · simp only [mem_insert, h.mem hnil, Prod.mk.injEq, and_true, mem_append,
        mem_singleton, or_and_right, exists_or, exists_eq_left]
      rw [or_comm, eq_comm]

private theorem seen_foldl (h : s.Seen seen) (nets : List NetAddress) :
    (nets.foldl step s).Seen (seen ++ nets) := by
  induction nets generalizing s seen with
  | nil => rwa [append_nil]
  | cons this nets ih =>
    rw [foldl_cons, append_cons]
    exact ih (h.step this)

/-- **No conflict is found** exactly if no two ranges overlap. -/
theorem conflicts_eq_nil_iff {nets : List NetAddress} :
    (nets.foldl step ⟨[], []⟩).conflicts = [] ↔
      nets.Pairwise fun n n' => AddressRange.cmp (.ofNet n) (.ofNet n') ≠ .eq := by
  have hstart : Seen ⟨[], []⟩ [] := ⟨List.Pairwise.nil, by simp, by simp⟩
  exact (seen_foldl hstart nets).apart

end OverlapCheck

/-- **A configuration without errors.** -/
theorem Mm1NodeConfig.errors_eq_nil_iff {c : Mm1NodeConfig} :
    c.errors = [] ↔
      (∀ k ∈ c.actor.runtimeKeys, k ∈ c.runtime.runtimeKeys) ∧
      ((∀ d ∈ c.runtime.default, d.enableTime) ∧
        ∀ k ∈ c.actor.runtimeKeys, ∀ cfg ∈ c.runtime.named.lookup k, cfg.enableTime) ∧
      c.autos.length = 1 ∧
      c.nets.Pairwise fun n n' => AddressRange.cmp (.ofNet n) (.ofNet n') ≠ .eq := by
  rw [← ActorConfigNode.ensureRuntimeKeysAreValid_eq_ok_iff,
    ← RtConfigs.timeDriverValidationErrors_eq_nil_iff, ← OverlapCheck.conflicts_eq_nil_iff]
  simp only [errors, append_eq_nil_iff, and_assoc, ite_eq_right_iff, cons_ne_nil,
    imp_false, not_not]
  refine and_congr_left fun _ => ?_
  cases c.actor.ensureRuntimeKeysAreValid c.runtime.runtimeKeys <;> simp

/-- The default configuration is valid. -/
example : Mm1NodeConfig.default.errors = [] := by decide

private theorem Mm1NodeConfig.validate_eq_ok {c : Mm1NodeConfig} {v : Valid}
    (h : c.validate = .ok v) : v.config = c := by
  rw [validate] at h
  split_ifs at h
  exact (Except.ok.inj h) ▸ rfl

/-! ### What is relied on -/

namespace Valid

variable (v : Valid)

/-- Every actor finds its runtime: its key names one that is configured with a time driver, and
once the runtimes are built, the one chosen is there and has a time driver. -/
def RuntimesServed : Prop :=
  ∀ key : ActorKey,
    (∀ k, (v.actorConfig key).runtimeKey = some k →
      ∃ cfg, v.config.runtime.named.lookup k = some cfg ∧ cfg.enableTime) ∧
    ∀ grants rts, v.buildRuntimes grants = .ok rts →
      ∃ rt, chooseExecutor rts (v.actorConfig key).runtimeKey = some rt ∧ rt.enableTime

/-- Exactly one local subnet is of kind `auto`. -/
def OneAuto : Prop := v.config.autos.length = 1

/-- No two local subnets have ranges that overlap. -/
def RangesApart : Prop :=
  v.config.nets.Pairwise fun n n' => AddressRange.cmp (.ofNet n) (.ofNet n') ≠ .eq

/-- No two local subnets share an address. -/
def SubnetsDisjoint : Prop := v.config.nets.Pairwise NetAddress.Disjoint

/-- Each actor has a runtime with a time driver. -/
private theorem runtimesServed : v.RuntimesServed := by
  intro key
  obtain ⟨havailable, ⟨hdefault, hnamed⟩, -⟩ :=
    Mm1NodeConfig.errors_eq_nil_iff.mp v.errors_eq_nil
  have hkey : ∀ k, (v.actorConfig key).runtimeKey = some k →
      ∃ cfg, v.config.runtime.named.lookup k = some cfg ∧ cfg.enableTime := by
    intro k hk
    have hused := ActorConfigNode.runtimeKey_mem_runtimeKeys hk
    obtain ⟨⟨k', cfg⟩, hmem, hk'⟩ := mem_map.mp (havailable k hused)
    obtain rfl : k' = k := hk'
    have hlookup := Roster.lookup_eq_some_iff.mpr hmem
    exact ⟨cfg, hlookup, hnamed k' hused cfg hlookup⟩
  refine ⟨hkey, fun grants rts hrts => ?_⟩
  obtain ⟨htime, hbuilt⟩ := RtConfigs.buildRuntimes_spec.of_ok hrts
  cases hk : (v.actorConfig key).runtimeKey with
  | none => exact ⟨rts.1, rfl, htime hdefault⟩
  | some k =>
    obtain ⟨cfg, hlookup, hcfg⟩ := hkey k hk
    obtain ⟨rt, hrt, heq⟩ := hbuilt k cfg hlookup
    exact ⟨rt, hrt, heq ▸ hcfg⟩

private theorem oneAuto : v.OneAuto := (Mm1NodeConfig.errors_eq_nil_iff.mp v.errors_eq_nil).2.2.1

private theorem rangesApart : v.RangesApart :=
  (Mm1NodeConfig.errors_eq_nil_iff.mp v.errors_eq_nil).2.2.2

/-- The `expect` of `local_subnet_address_auto` holds, and the subnets of the two kinds are all. -/
theorem exists_auto : ∃ auto, v.localSubnetAddressAuto = some auto ∧
    (auto :: v.localSubnetAddressesBind).Perm v.config.nets := by
  obtain ⟨d, hd⟩ := length_eq_one_iff.mp v.oneAuto
  rw [Mm1NodeConfig.autos] at hd
  refine ⟨d.net, ?_, ?_⟩
  · rw [localSubnetAddressAuto, ← List.head?_filter, hd]
    rfl
  · have hbind : v.localSubnetAddressesBind =
        (v.config.localSubnets.filter fun d => !decide (d.kind = .auto)).map
          DefLocalSubnet.net := by
      rw [← filterMap_eq_map, filterMap_filter, localSubnetAddressesBind]
      congr 1
      funext d
      cases d.kind <;> rfl
    have hperm := (filter_append_perm (fun d : DefLocalSubnet => d.kind = .auto)
      v.config.localSubnets).map DefLocalSubnet.net
    rwa [hd, map_append, ← hbind] at hperm

/-- **The local subnets are disjoint** unless the address of one lies in the block of another,
before the address of that one. -/
theorem disjoint_iff : v.SubnetsDisjoint ↔
    ∀ n ∈ v.config.nets, ∀ n' ∈ v.config.nets, ¬ n'.LiesBefore n := by
  constructor
  · intro hdisjoint n hn n' hn'
    have : Std.Symm fun n n' : NetAddress => ¬ n'.LiesBefore n ∧ ¬ n.LiesBefore n' :=
      ⟨fun _ _ h => h.symm⟩
    have hbefore := hdisjoint.imp fun {n n'} h => h.not_liesBefore
    exact (hbefore.forall_of_forall (fun _ _ => ⟨NetAddress.not_liesBefore_self,
      NetAddress.not_liesBefore_self⟩) hn hn').1
  · intro hbefore
    refine v.rangesApart.imp_of_mem fun {n n'} hn hn' h => ?_
    exact (disjoint_iff_of_apart h).mpr ⟨hbefore n hn n' hn', hbefore n' hn' n hn⟩

/-- Aligned subnets are disjoint. -/
theorem subnetsDisjoint_of_aligned (h : ∀ n ∈ v.config.nets, n.IsAligned) : v.SubnetsDisjoint :=
  v.disjoint_iff.mpr fun n hn _ _ => not_liesBefore_of_isAligned (h n hn)

/-- **What an accepted configuration guarantees.** Every actor finds a runtime with a time driver,
exactly one local subnet is of kind `auto`, and the ranges of the local subnets do not overlap. The
subnets themselves are disjoint exactly if none has its address in the block of another one, before
the address of that one. -/
theorem validated_iff {c : Mm1NodeConfig} {v : Valid} (h : c.validate = .ok v) :
    v.config = c ∧ (v.RuntimesServed ∧ v.OneAuto ∧ v.RangesApart) ∧
      (v.RuntimesServed ∧ v.OneAuto ∧ v.SubnetsDisjoint ↔
        ∀ n ∈ c.nets, ∀ n' ∈ c.nets, ¬ n'.LiesBefore n) := by
  obtain rfl := Mm1NodeConfig.validate_eq_ok h
  refine ⟨rfl, ⟨v.runtimesServed, v.oneAuto, v.rangesApart⟩, ?_⟩
  rw [← v.disjoint_iff, and_iff_right v.runtimesServed, and_iff_right v.oneAuto]

/-- The settings below `_` are those of every actor; they name the runtime `io`. -/
def wildcard : Mm1NodeConfig :=
  ⟨[⟨⟨⟨8#64⟩, .ofLevel 3⟩, .auto⟩, ⟨⟨⟨0#64⟩, .ofLevel 3⟩, .bind⟩],
    .node {} [("_", .node { runtime := some "io" } [])],
    ⟨none, ⟨[("io", ⟨1, 1, 0, 0, true, true⟩)], by decide⟩⟩⟩

theorem wildcard_runtime_served :
    ∃ v, wildcard.validate = .ok v ∧
      (v.actorConfig (ActorKey.root.child "main")).runtimeKey = some "io" ∧
      v.RuntimesServed ∧ v.OneAuto ∧ v.SubnetsDisjoint := by
  have hvalid : wildcard.errors = [] := by decide
  have haligned : ∀ n ∈ wildcard.nets, n.IsAligned := by decide
  exact ⟨⟨_, hvalid⟩, dif_pos hvalid, rfl, (validated_iff (dif_pos hvalid)).2.2.mpr fun n hn _ _ =>
    not_liesBefore_of_isAligned (haligned n hn)⟩

/-- The subnets `<8>/60` and `<0>/61`. -/
def overlapping : Mm1NodeConfig :=
  ⟨[⟨⟨⟨8#64⟩, .ofLevel 4⟩, .auto⟩, ⟨⟨⟨0#64⟩, .ofLevel 3⟩, .bind⟩], .node {} [],
    ⟨none, .empty⟩⟩

/-- The two are accepted, and both have the address `0`. -/
theorem overlapping_subnets_accepted :
    ∃ v, overlapping.validate = .ok v ∧ ¬ v.SubnetsDisjoint := by
  have hvalid : overlapping.errors = [] := by decide
  refine ⟨⟨_, hvalid⟩, dif_pos hvalid, fun hdisjoint => ?_⟩
  refine rel_of_pairwise_cons hdisjoint mem_cons_self 0#64 ⟨?_, rfl⟩
  show 0#64 &&& _ = 8#64 &&& _
  decide

end Valid

end Mm1
