import Mm1.Pool.Run
import Mm1.Runtime.Focus

/-!
# Forks of one actor

`fork()` leases an address from the subnet of the actor, adds a fork entry, builds the context of
the new fork and then sends `ForkAdded` through the call channel, which has room for one request.
When the context is dropped, be it by a `fork()` that is not polled to its end, the fork entry is
removed and `ForkDone`, which carries the lease, is put into the system queue.

All contexts of an actor are polled by the task of its container. The container takes a system
message only when the call channel is empty, so that a `ForkAdded` in the channel is applied
before a `ForkDone` is looked at. A `ForkAdded` that still waits for room is not there yet.

* `Actor.step`: the contexts, the call channel and the container (`Container.act`);
* `forkDone_known`: as long as no `fork()` is dropped while its request waits for room, each
  `ForkDone` names a known fork, and afterwards the fork is gone and its address is free;
* `forkDone_unknown`: otherwise the container panics.
-/

namespace Mm1

open PrefixBlock Transition Option Finset Container

namespace Container

variable {ι : Type*} [DecidableEq ι] {home : Address → ι} {c : ι} {k k' : Container}
  {f : Address} {o : Order} {m : SysMsg} {call : SysCall}

/-! ### Which forks a container knows -/

private theorem call_spec (h : k.act home c (.call call) = some k') :
    k.phase = .running ∧ k'.rxSystem = k.rxSystem := by
  cases taskMoves_of_act h with
  | call hp _ _ hcall => exact ⟨hp, hcall.keeps.1⟩

private theorem recv_spec (h : k.act home c (.recv o) = some k') :
    k.phase = .running ∧ ∃ m, k.rxSystem = m :: k'.rxSystem ∧
      MsgMoves { k with rxSystem := k'.rxSystem } o m k' := by
  cases taskMoves_of_act h with
  | @recv _ m rest _ hp _ hq hmsg =>
    obtain rfl : k'.rxSystem = rest := hmsg.keeps.1
    exact ⟨hp, m, hq, hmsg⟩

/-- A system call only adds the fork of `ForkAdded`. -/
private theorem known_of_call (hw : Wf home c k) (h : k.act home c (.call call) = some k')
    (f : Address) : k'.jobEntries f ≠ none ↔ k.jobEntries f ≠ none ∨ call = .forkAdded f := by
  by_cases hcall : call = .forkAdded f
  · subst hcall
    cases taskMoves_of_act h with
    | call _ _ _ hcall =>
      cases hcall
      exact iff_of_true (by simp [setEntry]) (.inr rfl)
  · have hrun := (call_spec h).1
    rcases entry_of_act hw h f with hsame | ⟨-, ha | ⟨l, o, ha⟩⟩ | ⟨-, ⟨⟨o, ha⟩, -⟩ | ⟨b, hp⟩⟩
    · rw [hsame, or_iff_left hcall]
    · exact absurd (TaskAction.call.inj ha) hcall
    · contradiction
    · contradiction
    · rw [hrun] at hp
      contradiction

/-- A system message only removes the fork of `ForkDone`. -/
private theorem known_of_recv (hw : Wf home c k) (h : k.act home c (.recv o) = some k')
    (f : Address) :
    k'.jobEntries f ≠ none ↔
      k.jobEntries f ≠ none ∧ k.rxSystem.head? ≠ some (.forkDone f) := by
  obtain ⟨hp, m, hq, hmsg⟩ := recv_spec h
  by_cases hm : m = .forkDone f
  · subst hm
    obtain ⟨e, -, -, hk⟩ := removeFork_spec hmsg.removeFork
    refine iff_of_false (fun hne => hne ?_) fun hne => hne.2 (by rw [hq, List.head?_cons])
    rw [hk]
    exact Function.update_self _ _ _
  · have hhead : k.rxSystem.head? ≠ some (.forkDone f) := by
      rw [hq, List.head?_cons]
      exact fun heq => hm (some.inj heq)
    rcases entry_of_act hw h f with hsame | ⟨-, ha | ⟨l, o', ha⟩⟩ | ⟨-, ⟨-, -, hhead'⟩ | ⟨b, hp'⟩⟩
    · rw [hsame, and_iff_left hhead]
    · contradiction
    · contradiction
    · exact absurd hhead' hhead
    · exact nomatch hp.symm.trans hp'

/-- A known fork can end. -/
private theorem exists_recv_of_known (hp : k.phase = .running) (hout : k.outbox = [])
    (hq : k.rxSystem.head? = some (.forkDone f)) (hf : k.jobEntries f ≠ none) :
    ∃ o k', k.act home c (.recv o) = some k' := by
  obtain ⟨rest, hq⟩ := List.head?_eq_some_iff.mp hq
  obtain ⟨e, he⟩ := ne_none_iff_exists'.mp hf
  let o : Order :=
    { targets := e.watches.toList, peers := e.linkedTo.toList, watchers := e.watchers.toList }
  have ho : o.Farewell e :=
    ⟨⟨nodup_toList _, toList_toFinset _⟩, ⟨nodup_toList _, toList_toFinset _⟩,
      ⟨nodup_toList _, toList_toFinset _⟩⟩
  refine ⟨o, ne_none_iff_exists'.mp ?_⟩
  simp [act, hp, hout, hq, handleMsg, removeFork, he, ho]

end Container

/-- An actor: its container, the addresses and contexts of its forks, and the call channel. -/
structure Actor where
  container : Container
  mainFork : Address
  subnetPool : Pool
  forkEntries : Finset Address
  /-- the contexts inside a `fork()` that awaits its `ForkAdded` -/
  forking : Finset Address
  /-- the contexts of the forks that `fork()` returned -/
  contexts : Finset Address
  /-- the requests that wait for room in the channel -/
  waiting : List SysCall
  channel : Option SysCall

inductive ActorAction where
  /-- `fork()` is called and runs up to its await -/
  | fork
  /-- a context makes another call -/
  | call (call : SysCall)
  /-- the `i`-th waiting request gets room in the channel -/
  | enter (i : ℕ)
  /-- the future of a call that waits for room is dropped -/
  | abandon (i : ℕ)
  /-- a `fork()` is dropped at its await -/
  | cancelFork (f : Address)
  /-- a `fork()` returns -/
  | forked (f : Address)
  /-- the context of a fork is dropped -/
  | dropContext (f : Address)
  /-- the container takes the request out of the channel -/
  | recvCall
  /-- the container takes the next system message -/
  | recvMsg (o : Order)
  /-- the container sends the next message of its handler -/
  | flush
  /-- a system message comes in -/
  | deliver (m : SysMsg)

namespace Actor

/-- There is one container. -/
def home (_ : Address) : Unit := ()

/-- `Container::create` and the start of `run`, on the subnet `n`. -/
def init (n : NetAddress) (linkTo : Finset Address) (order : List Address) : Option Actor := do
  let pool ← Pool.new n
  let (lease, subnetPool) ← pool.lease .max
  match lease with
  | .error _ => none
  | .ok l =>
    let container ← Container.absent.act home () (.create l.address linkTo order)
    return {
      container, subnetPool, mainFork := l.address, forkEntries := {l.address}
      forking := ∅, contexts := ∅, waiting := [], channel := none }

/-- `ActorContext::drop` for the context of a sub-fork. -/
def dropped (s : Actor) (f : Address) : Actor :=
  { s with
    forkEntries := s.forkEntries.erase f
    container := s.container.enqueue (.forkDone f) }

def step (s : Actor) : ActorAction → Option Actor
  | .fork => do
    let (lease, subnetPool) ← s.subnetPool.lease .max
    match lease with
    | .error _ => return { s with subnetPool }
    | .ok l =>
      if l.address ∈ s.forkEntries then none
      else
        return { s with
          subnetPool
          forkEntries := insert l.address s.forkEntries
          forking := insert l.address s.forking
          waiting := s.waiting ++ [.forkAdded l.address] }
  | .call (.forkAdded _) => none
  | .call call => some { s with waiting := s.waiting ++ [call] }
  | .enter i =>
    match s.channel, s.waiting[i]? with
    | none, some call => some { s with channel := some call, waiting := s.waiting.eraseIdx i }
    | _, _ => none
  | .abandon i =>
    match s.waiting[i]? with
    | none | some (.forkAdded _) => none
    | some _ => some { s with waiting := s.waiting.eraseIdx i }
  | .cancelFork f =>
    -- the request is withdrawn if it is not in the channel yet
    if f ∈ s.forking then
      some ({ s with
        forking := s.forking.erase f
        waiting := s.waiting.filter (· ≠ SysCall.forkAdded f) }.dropped f)
    else none
  | .forked f =>
    if f ∈ s.forking ∧ s.container.jobEntries f ≠ none then
      some { s with forking := s.forking.erase f, contexts := insert f s.contexts }
    else none
  | .dropContext f =>
    if f ∈ s.contexts then some ({ s with contexts := s.contexts.erase f }.dropped f) else none
  | .recvCall =>
    match s.channel with
    | none => none
    | some call =>
      (s.container.act home () (.call call)).map fun container =>
        { s with container, channel := none }
  | .recvMsg o =>
    match s.channel with
    | some _ => none
    | none => do
      let container ← s.container.act home () (.recv o)
      match s.container.rxSystem.head? with
      | some (.forkDone f) =>
        -- the lease is dropped with the message
        let subnetPool ← s.subnetPool.drop ⟨f, .max⟩
        return { s with container, subnetPool }
      | _ => return { s with container }
  | .flush =>
    match s.container.outbox with
    | [] => none
    | _ :: outbox => some { s with container := { s.container with outbox } }
  | .deliver (.forkDone _) => none
  | .deliver m => some { s with container := s.container.enqueue m }

/-! ### The invariant -/

variable {s s' : Actor} {f : Address} {waiting : List SysCall} {o : Order}

/-- The address is leased to a fork: its context is alive, or its `ForkDone` is queued. -/
def Holds (s : Actor) (f : Address) : Prop :=
  f = s.mainFork ∨ f ∈ s.forking ∨ f ∈ s.contexts ∨ .forkDone f ∈ s.container.rxSystem

/-- The `ForkAdded` of the fork was applied or is going to be applied before the next system
message. -/
def Entered (s : Actor) (f : Address) : Prop :=
  s.container.jobEntries f ≠ none ∨ s.channel = some (.forkAdded f)

structure Inv (s : Actor) : Prop where
  wf : s.container.Wf home ()
  started : s.container.phase ≠ .absent
  pool : s.subnetPool.Ok
  held : ∀ f, s.Holds f → ¬ s.subnetPool.Free f.intoU64
  entries : ∀ f ∈ s.forkEntries, f = s.mainFork ∨ f ∈ s.forking ∨ f ∈ s.contexts
  forking : ∀ f ∈ s.forking, f ≠ s.mainFork ∧ f ∉ s.contexts ∧
    (s.Entered f ∨ .forkAdded f ∈ s.waiting)
  contexts : ∀ f ∈ s.contexts, f ≠ s.mainFork ∧ s.container.jobEntries f ≠ none
  done : ∀ f, .forkDone f ∈ s.container.rxSystem →
    f ≠ s.mainFork ∧ f ∉ s.forking ∧ f ∉ s.contexts ∧ s.Entered f
  once : ∀ f, s.container.rxSystem.count (.forkDone f) ≤ 1

/-- The `fork()` that is dropped in a step. -/
def cancelled : ActorAction → Option Address
  | .cancelFork f => some f
  | _ => none

/-- No `fork()` is dropped while its `ForkAdded` waits for room in the channel. -/
def NoEarlyDrop (s : Actor) (a : ActorAction) : Prop := ∀ f ∈ cancelled a, .forkAdded f ∉ s.waiting

instance (s : Actor) (a : ActorAction) : Decidable (NoEarlyDrop s a) :=
  inferInstanceAs (Decidable (∀ f ∈ cancelled a, _))

private theorem contains_max {f : Address} {a : U64} :
    (⟨f, .max⟩ : NetAddress).Contains a ↔ a = f.intoU64 := by
  rw [NetAddress.contains_iff]
  exact samePrefix_zero

private theorem aligned_max (f : Address) : (⟨f, .max⟩ : NetAddress).IsAligned :=
  NetAddress.isAligned_iff.mpr (aligned_zero _)

private theorem mem_eraseIdx_of_ne {l : List SysCall} {x y : SysCall} {i : ℕ}
    (hi : l[i]? = some x) (hne : x ≠ y) (hy : y ∈ l) : y ∈ l.eraseIdx i := by
  obtain ⟨j, hj⟩ := List.mem_iff_getElem?.mp hy
  refine List.mem_eraseIdx_iff_getElem?.mpr ⟨j, fun heq => hne ?_, hj⟩
  exact some.inj (hi.symm.trans (heq ▸ hj))

/-- Only the requests that wait and the one in the channel change. -/
private theorem Inv.calls (h : s.Inv) {channel : Option SysCall}
    (hforking : ∀ f, s.channel = some (.forkAdded f) ∨ .forkAdded f ∈ s.waiting →
      channel = some (.forkAdded f) ∨ .forkAdded f ∈ waiting)
    (hchannel : ∀ f, s.channel = some (.forkAdded f) → channel = some (.forkAdded f)) :
    Inv { s with waiting, channel } where
  wf := h.wf
  started := h.started
  pool := h.pool
  held := h.held
  entries := h.entries
  forking f hf := by
    obtain ⟨hmain, hctx, hreq⟩ := h.forking f hf
    refine ⟨hmain, hctx, ?_⟩
    rcases hreq with (hjob | hreq) | hreq
    · exact .inl (.inl hjob)
    · exact (hforking f (.inl hreq)).imp_left .inr
    · exact (hforking f (.inr hreq)).imp_left .inr
  contexts := h.contexts
  done f hf := by
    obtain ⟨hmain, hfork, hctx, hent⟩ := h.done f hf
    exact ⟨hmain, hfork, hctx, hent.imp_right (hchannel f)⟩
  once := h.once

/-- A context whose `ForkAdded` has entered is dropped. -/
private theorem Inv.dropped (h : s.Inv) (hf : f ∈ s.forking ∨ f ∈ s.contexts) (hent : s.Entered f)
    {forking contexts : Finset Address} (hforking : ∀ g, g ∈ forking ↔ g ∈ s.forking ∧ g ≠ f)
    (hcontexts : ∀ g, g ∈ contexts ↔ g ∈ s.contexts ∧ g ≠ f)
    (hwaiting : ∀ g, g ≠ f → .forkAdded g ∈ s.waiting → .forkAdded g ∈ waiting) :
    Inv ({ s with forking, contexts, waiting }.dropped f) := by
  have hmain : f ≠ s.mainFork :=
    hf.elim (fun hf => (h.forking f hf).1) fun hf => (h.contexts f hf).1
  have hnew : .forkDone f ∉ s.container.rxSystem := fun hmem => by
    obtain ⟨-, hfork, hctx, -⟩ := h.done f hmem
    exact hf.elim hfork hctx
  have hrx : ∀ g, .forkDone g ∈ s.container.rxSystem ++ [.forkDone f] ↔
      .forkDone g ∈ s.container.rxSystem ∨ g = f := fun g => by
    simp only [List.mem_append, List.mem_singleton, SysMsg.forkDone.injEq]
  refine ⟨h.wf.enqueue h.started nofun, h.started, h.pool, ?_, ?_, ?_, ?_, ?_, ?_⟩
  · intro g hg
    refine h.held g ?_
    rcases hg with hg | hg | hg | hg
    · exact .inl hg
    · exact .inr (.inl ((hforking g).mp hg).1)
    · exact .inr (.inr (.inl ((hcontexts g).mp hg).1))
    · rcases (hrx g).mp hg with hg | rfl
      · exact .inr (.inr (.inr hg))
      · exact .inr (hf.imp_right .inl)
  · intro g hg
    obtain ⟨hne, hg⟩ := mem_erase.mp hg
    rcases h.entries g hg with hg | hg | hg
    · exact .inl hg
    · exact .inr (.inl ((hforking g).mpr ⟨hg, hne⟩))
    · exact .inr (.inr ((hcontexts g).mpr ⟨hg, hne⟩))
  · intro g hg
    obtain ⟨hg, hne⟩ := (hforking g).mp hg
    obtain ⟨hgmain, hgctx, hreq⟩ := h.forking g hg
    exact ⟨hgmain, fun hc => hgctx ((hcontexts g).mp hc).1, hreq.imp_right (hwaiting g hne)⟩
  · exact fun g hg => h.contexts g ((hcontexts g).mp hg).1
  · intro g hg
    rcases (hrx g).mp hg with hg | rfl
    · obtain ⟨hgmain, hgfork, hgctx, hgent⟩ := h.done g hg
      exact ⟨hgmain, fun hc => hgfork ((hforking g).mp hc).1,
        fun hc => hgctx ((hcontexts g).mp hc).1, hgent⟩
    · exact ⟨hmain, fun hc => ((hforking g).mp hc).2 rfl, fun hc => ((hcontexts g).mp hc).2 rfl,
        hent⟩
  · intro g
    change (s.container.rxSystem ++ [SysMsg.forkDone f]).count (SysMsg.forkDone g) ≤ 1
    by_cases hg : g = f
    · subst hg
      simp [List.count_append, List.count_eq_zero_of_not_mem hnew]
    · have hne : SysMsg.forkDone g ≠ .forkDone f := fun heq => hg (SysMsg.forkDone.inj heq)
      simpa [List.count_append, List.count_singleton, Ne.symm hne] using h.once g

/-- The container takes the request out of the channel. -/
private theorem Inv.recvCall (h : s.Inv) {call : SysCall} {k' : Container}
    (hch : s.channel = some call) (hk : s.container.act home () (.call call) = some k') :
    Inv { s with container := k', channel := none } := by
  have hrx := (call_spec hk).2
  have hknown := known_of_call h.wf hk
  have hent : ∀ g, s.Entered g → k'.jobEntries g ≠ none := fun g hg => by
    rw [hknown]
    exact hg.imp_right fun hg => some.inj (hch.symm.trans hg)
  refine ⟨h.wf.act hk, fun hp => ?_, h.pool, fun g hg => h.held g ?_, h.entries, ?_, ?_, ?_, ?_⟩
  · have hnext := phase_next_of_act h.wf hk
    rw [hp] at hnext
    exact hnext.elim (fun heq => h.started heq.symm) Phase.not_next_absent
  · rwa [Holds, hrx] at hg
  · intro g hg
    obtain ⟨hmain, hctx, hreq⟩ := h.forking g hg
    exact ⟨hmain, hctx, hreq.imp_left fun hreq => .inl (hent g hreq)⟩
  · intro g hg
    obtain ⟨hmain, hjob⟩ := h.contexts g hg
    exact ⟨hmain, hent g (.inl hjob)⟩
  · intro g hg
    change _ ∈ k'.rxSystem at hg
    rw [hrx] at hg
    obtain ⟨hmain, hfork, hctx, hreq⟩ := h.done g hg
    exact ⟨hmain, hfork, hctx, .inl (hent g hreq)⟩
  · intro g
    change k'.rxSystem.count _ ≤ 1
    rw [hrx]
    exact h.once g

/-- What the container does with the next system message. -/
private theorem recvMsg_spec (hs : s.step (.recvMsg o) = some s') :
    s.channel = none ∧ ∃ k' m, s.container.act home () (.recv o) = some k' ∧
      s.container.rxSystem = m :: k'.rxSystem ∧
      ((∃ f pool, m = .forkDone f ∧ s.subnetPool.drop ⟨f, .max⟩ = some pool ∧
        s' = { s with container := k', subnetPool := pool }) ∨
      (∀ f, m ≠ .forkDone f) ∧ s' = { s with container := k' }) := by
  simp only [step] at hs
  cases hch : s.channel with
  | some call =>
    rw [hch] at hs
    contradiction
  | none =>
    rw [hch] at hs
    obtain ⟨k', hk, hs⟩ := bind_eq_some_iff.mp hs
    obtain ⟨-, m, hq, -⟩ := recv_spec hk
    rw [hq, List.head?_cons] at hs
    refine ⟨rfl, k', m, hk, hq, ?_⟩
    cases m with
    | forkDone f =>
      obtain ⟨pool, hpool, hs⟩ := bind_eq_some_iff.mp hs
      exact .inl ⟨f, pool, rfl, hpool, (some.inj hs).symm⟩
    | kill | link | watch => exact .inr ⟨by simp, (some.inj hs).symm⟩

/-- A fork whose `ForkDone` is taken has nothing else. -/
private theorem Inv.not_holds_of_done (h : s.Inv) {rest : List SysMsg}
    (hq : s.container.rxSystem = .forkDone f :: rest) :
    f ≠ s.mainFork ∧ f ∉ s.forking ∧ f ∉ s.contexts ∧ .forkDone f ∉ rest := by
  obtain ⟨hmain, hfork, hctx, -⟩ := h.done f (by rw [hq]; exact List.mem_cons_self)
  refine ⟨hmain, hfork, hctx, fun hmem => ?_⟩
  have hcount := h.once f
  rw [hq, List.count_cons_self] at hcount
  exact absurd (List.count_pos_iff.mpr hmem) (by omega)

/-- The lease that a `ForkDone` carries can be dropped. -/
private theorem Inv.drop_of_done (h : s.Inv) (hmem : .forkDone f ∈ s.container.rxSystem) :
    ∃ pool, s.subnetPool.drop ⟨f, .max⟩ = some pool ∧ pool.Ok ∧
      ∀ a, pool.Free a ↔ s.subnetPool.Free a ∨ a = f.intoU64 := by
  have hheld : ∀ a, (⟨f, .max⟩ : NetAddress).Contains a → ¬ s.subnetPool.Free a := fun a ha => by
    rw [contains_max.mp ha]
    exact h.held f (.inr (.inr (.inr hmem)))
  obtain ⟨pool, hdrop, hok, hfree⟩ := h.pool.drop (aligned_max f) hheld
  exact ⟨pool, hdrop, hok, fun a => by rw [hfree, contains_max]⟩

/-- The container takes the next system message. -/
private theorem Inv.recvMsg (h : s.Inv) (hs : s.step (.recvMsg o) = some s') : s'.Inv := by
  obtain ⟨hch, k', m, hk, hq, hcase⟩ := recvMsg_spec hs
  have hknown : ∀ g, k'.jobEntries g ≠ none ↔ s.container.jobEntries g ≠ none ∧ m ≠ .forkDone g :=
    fun g => by
      rw [known_of_recv h.wf hk, hq, List.head?_cons, Ne, Ne, Option.some.injEq]
  have hstarted : k'.phase ≠ .absent := fun hp => by
    have hnext := phase_next_of_act h.wf hk
    rw [hp] at hnext
    exact hnext.elim (fun heq => h.started heq.symm) Phase.not_next_absent
  have hmem : ∀ g, .forkDone g ∈ k'.rxSystem → .forkDone g ∈ s.container.rxSystem := fun g hg => by
    rw [hq]
    exact List.mem_cons_of_mem _ hg
  -- the channel is empty, so that what has entered was applied
  have hent : ∀ g, s.Entered g → m ≠ .forkDone g → k'.jobEntries g ≠ none := fun g hg hm =>
    (hknown g).mpr ⟨hg.resolve_right fun hc => (nomatch hch.symm.trans hc), hm⟩
  have hold : ∀ g, g = s.mainFork ∨ g ∈ s.forking ∨ g ∈ s.contexts ∨ .forkDone g ∈ k'.rxSystem →
      m ≠ .forkDone g := by
    rintro g hg rfl
    obtain ⟨hmain, hfork, hctx, hrest⟩ := h.not_holds_of_done hq
    exact hg.elim hmain fun hg => hg.elim hfork fun hg => hg.elim hctx hrest
  have hpool : ∃ pool, s' = { s with container := k', subnetPool := pool } ∧ pool.Ok ∧
      ∀ g, g = s.mainFork ∨ g ∈ s.forking ∨ g ∈ s.contexts ∨ .forkDone g ∈ k'.rxSystem →
        ¬ pool.Free g.intoU64 := by
    rcases hcase with ⟨f, pool, rfl, hdrop, rfl⟩ | ⟨-, rfl⟩
    · obtain ⟨pool', hdrop', hok, hfree⟩ := h.drop_of_done (f := f) (hq ▸ List.mem_cons_self)
      obtain rfl := some.inj (hdrop.symm.trans hdrop')
      refine ⟨pool, rfl, hok, fun g hg => ?_⟩
      rw [hfree]
      refine not_or.mpr ⟨h.held g ?_, fun heq => hold g hg ?_⟩
      · exact hg.imp_right fun hg => hg.imp_right fun hg => hg.imp_right (hmem g)
      · rw [Address.ext heq]
    · refine ⟨s.subnetPool, rfl, h.pool, fun g hg => h.held g ?_⟩
      exact hg.imp_right fun hg => hg.imp_right fun hg => hg.imp_right (hmem g)
  obtain ⟨pool, rfl, hok, hheld⟩ := hpool
  refine ⟨h.wf.act hk, hstarted, hok, hheld, h.entries, ?_, ?_, ?_, ?_⟩
  · intro g hg
    obtain ⟨hmain, hctx, hreq⟩ := h.forking g hg
    refine ⟨hmain, hctx, hreq.imp_left fun hreq => .inl (hent g hreq ?_)⟩
    exact hold g (.inr (.inl hg))
  · intro g hg
    obtain ⟨hmain, hjob⟩ := h.contexts g hg
    exact ⟨hmain, hent g (.inl hjob) (hold g (.inr (.inr (.inl hg))))⟩
  · intro g hg
    obtain ⟨hmain, hfork, hctx, hreq⟩ := h.done g (hmem g hg)
    exact ⟨hmain, hfork, hctx, .inl (hent g hreq (hold g (.inr (.inr (.inr hg)))))⟩
  · intro g
    have hcount := h.once g
    rw [hq] at hcount
    exact (List.count_le_count_cons).trans hcount

/-- `fork()` leases an address that no fork of the actor holds. -/
private theorem Inv.fork (h : s.Inv) (hs : s.step .fork = some s') : s'.Inv := by
  rcases h.pool.lease .max with
    ⟨l, pool, heq, hmask, -, hblock, hok, hfree⟩ | ⟨pool, heq, -, hok, hfree⟩
  · simp only [Actor.step, heq, bind_eq_bind, bind_some, Option.pure_def,
      ite_none_left_eq_some, Option.some.injEq] at hs
    obtain ⟨-, rfl⟩ := hs
    have hcontains : ∀ a, l.Contains a ↔ a = l.address.intoU64 := fun a => by
      rw [← contains_max, ← hmask]
    have hnew : ¬ s.Holds l.address := fun hg => h.held _ hg (hblock _ ((hcontains _).mpr rfl))
    refine ⟨h.wf, h.started, hok, ?_, ?_, ?_, h.contexts, ?_, h.once⟩
    · intro g hg
      rw [hfree, hcontains]
      rintro ⟨hfree', hne⟩
      refine h.held g ?_ hfree'
      refine hg.imp_right fun hg => hg.imp_left fun hg => ?_
      exact (mem_insert.mp hg).resolve_left fun heq => hne (congrArg _ heq)
    · intro g hg
      rcases mem_insert.mp hg with rfl | hg
      · exact .inr (.inl (mem_insert_self _ _))
      · exact (h.entries g hg).imp_right fun hg => hg.imp_left mem_insert_of_mem
    · intro g hg
      rcases mem_insert.mp hg with rfl | hg
      · exact ⟨fun hc => hnew (.inl hc), fun hc => hnew (.inr (.inr (.inl hc))),
          .inr (List.mem_append_right _ (List.mem_singleton_self _))⟩
      · obtain ⟨hmain, hctx, hreq⟩ := h.forking g hg
        exact ⟨hmain, hctx, hreq.imp_right (List.mem_append_left _)⟩
    · intro g hg
      obtain ⟨hmain, hfork, hctx, hreq⟩ := h.done g hg
      refine ⟨hmain, fun hc => ?_, hctx, hreq⟩
      rcases mem_insert.mp hc with rfl | hc
      · exact hnew (.inr (.inr (.inr hg)))
      · exact hfork hc
  · simp only [Actor.step, heq, bind_eq_bind, bind_some, Option.pure_def, Option.some.injEq] at hs
    subst hs
    exact ⟨h.wf, h.started, hok, fun g hg hf => h.held g hg ((hfree _).mp hf), h.entries,
      h.forking, h.contexts, h.done, h.once⟩

/-- `fork()` returns. -/
private theorem Inv.forked (h : s.Inv) (hf : f ∈ s.forking)
    (hjob : s.container.jobEntries f ≠ none) :
    Inv { s with forking := s.forking.erase f, contexts := insert f s.contexts } := by
  obtain ⟨hmain, -, -⟩ := h.forking f hf
  refine ⟨h.wf, h.started, h.pool, fun g hg => h.held g ?_, fun g hg => ?_, fun g hg => ?_,
    fun g hg => ?_, fun g hg => ?_, h.once⟩
  · rcases hg with hg | hg | hg | hg
    · exact .inl hg
    · exact .inr (.inl (mem_of_mem_erase hg))
    · rcases mem_insert.mp hg with rfl | hg
      · exact .inr (.inl hf)
      · exact .inr (.inr (.inl hg))
    · exact .inr (.inr (.inr hg))
  · rcases h.entries g hg with hg | hg | hg
    · exact .inl hg
    · by_cases hgf : g = f
      · exact .inr (.inr (hgf ▸ mem_insert_self _ _))
      · exact .inr (.inl (mem_erase.mpr ⟨hgf, hg⟩))
    · exact .inr (.inr (mem_insert_of_mem hg))
  · obtain ⟨hgf, hg⟩ := mem_erase.mp hg
    obtain ⟨hgmain, hctx, hreq⟩ := h.forking g hg
    exact ⟨hgmain, fun hc => hctx ((mem_insert.mp hc).resolve_left hgf), hreq⟩
  · rcases mem_insert.mp hg with rfl | hg
    · exact ⟨hmain, hjob⟩
    · exact h.contexts g hg
  · obtain ⟨hgmain, hfork, hctx, hreq⟩ := h.done g hg
    refine ⟨hgmain, fun hc => hfork (mem_of_mem_erase hc), fun hc => ?_, hreq⟩
    rcases mem_insert.mp hc with rfl | hc
    · exact hfork hf
    · exact hctx hc

/-- A message that is not a `ForkDone` comes in. -/
private theorem Inv.deliver (h : s.Inv) {m : SysMsg} (hm : ∀ f, m ≠ .forkDone f) :
    Inv { s with container := s.container.enqueue m } := by
  have hrx : ∀ g, .forkDone g ∈ s.container.rxSystem ++ [m] ↔
      .forkDone g ∈ s.container.rxSystem := fun g => by
    simp only [List.mem_append, List.mem_singleton, Ne.symm (hm g), or_false]
  refine ⟨h.wf.enqueue h.started fun _ _ _ => rfl, h.started, h.pool, fun g hg => h.held g ?_,
    h.entries, h.forking, h.contexts, fun g hg => h.done g ((hrx g).mp hg), fun g => ?_⟩
  · exact hg.imp_right fun hg => hg.imp_right fun hg => hg.imp_right (hrx g).mp
  · have hcount : (s.container.rxSystem ++ [m]).count (.forkDone g) =
        s.container.rxSystem.count (.forkDone g) := by
      simp [List.count_append, hm g]
    exact hcount.trans_le (h.once g)

/-- Every step but the early drop of a `fork()` keeps the invariant. -/
private theorem Inv.step (h : s.Inv) {a : ActorAction} (hok : NoEarlyDrop s a)
    (hs : s.step a = some s') : s'.Inv := by
  cases a with
  | fork => exact h.fork hs
  | call call =>
    have hcalls : s'.Inv ↔ Inv { s with waiting := s.waiting ++ [call], channel := s.channel } := by
      cases call with
      | forkAdded => contradiction
      | _ =>
        cases hs
        exact Iff.rfl
    exact hcalls.mpr (h.calls (fun f hf => hf.imp_right (List.mem_append_left _)) fun f hf => hf)
  | enter i =>
    simp only [Actor.step] at hs
    split at hs
    case h_1 call hch hi =>
      cases hs
      have hidle : ∀ f, s.channel ≠ some (.forkAdded f) := fun f => by simp [hch]
      refine h.calls (fun f hf => ?_) fun f hf => absurd hf (hidle f)
      have hf := hf.resolve_left (hidle f)
      by_cases hcall : call = .forkAdded f
      · exact .inl (congrArg some hcall)
      · exact .inr (mem_eraseIdx_of_ne hi hcall hf)
    case h_2 => contradiction
  | abandon i =>
    simp only [Actor.step] at hs
    split at hs
    case h_1 | h_2 => contradiction
    case h_3 call hcall hi =>
      cases hs
      refine h.calls (fun f hf => hf.imp_right fun hf => ?_) fun f hf => hf
      exact mem_eraseIdx_of_ne hi (fun heq => hcall f (heq ▸ rfl)) hf
  | cancelFork f =>
    simp only [Actor.step, ite_none_right_eq_some, Option.some.injEq] at hs
    obtain ⟨hf, rfl⟩ := hs
    obtain ⟨-, hctx, hreq⟩ := h.forking f hf
    refine h.dropped (.inl hf) (hreq.resolve_right (hok f rfl)) (fun g => ?_) (fun g => ?_)
      fun g hg hmem => ?_
    · rw [mem_erase, and_comm]
    · exact ⟨fun hg => ⟨hg, fun heq => hctx (heq ▸ hg)⟩, And.left⟩
    · simpa [hg] using hmem
  | forked f =>
    simp only [Actor.step, ite_none_right_eq_some, Option.some.injEq] at hs
    obtain ⟨⟨hf, hjob⟩, rfl⟩ := hs
    exact h.forked hf hjob
  | dropContext f =>
    simp only [Actor.step, ite_none_right_eq_some, Option.some.injEq] at hs
    obtain ⟨hf, rfl⟩ := hs
    refine h.dropped (.inr hf) (.inl (h.contexts f hf).2) (fun g => ?_) (fun g => ?_)
      fun g _ hmem => hmem
    · exact ⟨fun hg => ⟨hg, fun heq => (h.forking g hg).2.1 (heq ▸ hf)⟩, And.left⟩
    · rw [mem_erase, and_comm]
  | recvCall =>
    simp only [Actor.step] at hs
    split at hs
    case h_1 => contradiction
    case h_2 call hch =>
      obtain ⟨k', hk, rfl⟩ := map_eq_some_iff.mp hs
      exact h.recvCall hch hk
  | recvMsg o => exact h.recvMsg hs
  | flush =>
    simp only [Actor.step] at hs
    split at hs
    case h_1 => contradiction
    case h_2 hout =>
      cases hs
      have hwf := h.wf.popOutbox
      rw [hout] at hwf
      exact ⟨hwf, h.started, h.pool, h.held, h.entries, h.forking, h.contexts, h.done, h.once⟩
  | deliver m =>
    cases m with
    | forkDone => contradiction
    | kill | link | watch =>
      cases hs
      exact h.deliver (by simp)

/-- A new actor has its main fork only. -/
private theorem Inv.init {n : NetAddress} {linkTo : Finset Address} {order : List Address}
    (h : init n linkTo order = some s) : s.Inv := by
  obtain ⟨pool, hnew, hok, -⟩ := Pool.new_spec n
  simp only [Actor.init, hnew, bind_eq_bind, bind_some] at h
  rcases hok.lease .max with ⟨l, pool', heq, hmask, -, -, hok', hfree⟩ | ⟨pool', heq, -, -, -⟩
  · simp only [heq, bind_some, Option.pure_def] at h
    obtain ⟨k, hk, hs⟩ := bind_eq_some_iff.mp h
    obtain rfl := some.inj hs
    have hcontains : l.Contains l.address.intoU64 := rfl
    have hrx : k.rxSystem = [] := by
      cases taskMoves_of_act hk
      rfl
    refine ⟨Container.Wf.init.act hk, ?_, hok', fun g hg hf => ?_, fun g hg => ?_, ?_, ?_, ?_, ?_⟩
    · simp [(act_absent hk).2]
    · rcases hg with rfl | hg | hg | hg
      · exact ((hfree _).mp hf).2 hcontains
      · exact absurd hg (notMem_empty _)
      · exact absurd hg (notMem_empty _)
      · exact absurd (hrx ▸ hg) List.not_mem_nil
    · exact .inl (mem_singleton.mp hg)
    · exact fun g hg => absurd hg (notMem_empty _)
    · exact fun g hg => absurd hg (notMem_empty _)
    · exact fun g hg => absurd (hrx ▸ hg) List.not_mem_nil
    · intro g
      change k.rxSystem.count _ ≤ 1
      rw [hrx]
      exact Nat.zero_le _
  · simp only [heq, bind_some] at h
    contradiction

end Actor

open Actor

/-- **Every `ForkDone` names a known fork.** In every run of an actor in which no `fork()` is
dropped while its `ForkAdded` waits for room in the call channel: a `ForkDone` that the container
is about to take names a fork it has an entry for, so that it can be handled; and once it is
handled, the fork has neither a job entry nor a fork entry and its address is free. -/
theorem forkDone_known {n : NetAddress} {linkTo : Finset Address} {order : List Address}
    {s₀ s : Actor} {f : Address} (hinit : Actor.init n linkTo order = some s₀)
    (h : Reaches Actor.step NoEarlyDrop s₀ s) (hrun : s.container.phase = .running)
    (hch : s.channel = none) (hhead : s.container.rxSystem.head? = some (.forkDone f)) :
    s.container.jobEntries f ≠ none ∧
      (s.container.outbox = [] → ∃ o s', s.step (.recvMsg o) = some s') ∧
      ∀ o s', s.step (.recvMsg o) = some s' →
        s'.container.jobEntries f = none ∧ f ∉ s'.forkEntries ∧
          s'.subnetPool.Free f.intoU64 := by
  have hinv : s.Inv := h.invariant (Inv.init hinit) fun hinv hok hs => hinv.step hok hs
  obtain ⟨rest, hq⟩ := List.head?_eq_some_iff.mp hhead
  have hmem : .forkDone f ∈ s.container.rxSystem := List.mem_of_mem_head? hhead
  have hjob : s.container.jobEntries f ≠ none :=
    (hinv.done f hmem).2.2.2.resolve_right fun hc => nomatch hch.symm.trans hc
  obtain ⟨pool, hdrop, -, hfree⟩ := hinv.drop_of_done hmem
  refine ⟨hjob, fun hout => ?_, fun o s' hs => ?_⟩
  · obtain ⟨o, k', hk⟩ : ∃ o k', s.container.act Actor.home () (.recv o) = some k' :=
      exists_recv_of_known hrun hout hhead hjob
    refine ⟨o, { s with container := k', subnetPool := pool }, ?_⟩
    simp only [Actor.step, hch, hk, hhead, hdrop, bind_eq_bind, bind_some, Option.pure_def]
  · obtain ⟨-, k', m, hk, hq', hcase⟩ := recvMsg_spec hs
    obtain ⟨hm, -⟩ := List.cons.inj (hq.symm.trans hq')
    obtain ⟨hmain, hfork, hctx, -⟩ := hinv.not_holds_of_done hq
    rcases hcase with ⟨f', pool', rfl, hdrop', rfl⟩ | ⟨hne, -⟩
    · cases hm
      obtain rfl := some.inj (hdrop.symm.trans hdrop')
      refine ⟨?_, fun hmem => ?_, (hfree _).mpr (.inr rfl)⟩
      · by_contra hne
        exact ((known_of_recv hinv.wf hk f).mp hne).2 hhead
      · exact (hinv.entries f hmem).elim hmain fun h => h.elim hfork hctx
    · exact absurd hm.symm (hne f)

/-- A `fork()` is dropped after its request has entered the channel. -/
theorem forkDone_known_cancelled :
    ∃ s₀ s, Actor.init ⟨⟨16#64⟩, ⟨60, by decide⟩⟩ ∅ [] = some s₀ ∧
      Reaches Actor.step NoEarlyDrop s₀ s ∧
      s.container.rxSystem.head? = some (.forkDone ⟨17#64⟩) ∧
      s.container.jobEntries ⟨17#64⟩ ≠ none := by
  obtain ⟨s₀, s, hinit, hreach, hphase, hch, hhead⟩ : ∃ s₀ s,
      Actor.init ⟨⟨16#64⟩, ⟨60, by decide⟩⟩ ∅ [] = some s₀ ∧ Reaches Actor.step NoEarlyDrop s₀ s ∧
      s.container.phase = .running ∧ s.channel = none ∧
      s.container.rxSystem.head? = some (.forkDone ⟨17#64⟩) :=
    ⟨_, _, rfl, reaches_get [.fork, .enter 0, .cancelFork ⟨17#64⟩, .recvCall] (by decide), rfl, rfl,
      rfl⟩
  exact ⟨s₀, s, hinit, hreach, hhead, (forkDone_known hinit hreach hphase hch hhead).1⟩

/-- **A `ForkDone` of an unknown fork.** A call of the sub-fork occupies the channel, so that the
`ForkAdded` of the next `fork()` has to wait; this `fork()` is dropped. Its request is withdrawn,
but its `ForkDone` is queued, and the container panics when it takes it. -/
theorem forkDone_unknown :
    ∃ s₀ s, Actor.init ⟨⟨16#64⟩, ⟨60, by decide⟩⟩ ∅ [] = some s₀ ∧
      Reaches Actor.step (fun _ _ => True) s₀ s ∧ s.container.phase = .running ∧
      s.channel = none ∧ s.container.outbox = [] ∧
      s.container.rxSystem.head? = some (.forkDone ⟨18#64⟩) ∧
      s.container.jobEntries ⟨18#64⟩ = none ∧ ∀ o, s.step (.recvMsg o) = none := by
  exact ⟨_, _, rfl, reaches_get
    [.fork, .enter 0, .recvCall, .forked ⟨17#64⟩, .call (.trapExit true), .enter 0, .fork,
      .cancelFork ⟨18#64⟩, .recvCall] (by decide), rfl, rfl, rfl, rfl, rfl, fun o => rfl⟩

end Mm1
