import Mm1.Runtime.Watch

/-!
# The watch table of one container

`taken_watch_refs` says who owns a watch reference, and the job entries say which watches a fork
has. Five places change the two: a watch, an unwatch by any fork, a `Down`, the end of a fork, and
the teardown. Here one container is taken alone, with any calls and messages in any order; the
only condition is that `link`, `unlink` and `watch` are calls of forks that were added and have
not ended.

* `Loop.Inv`: the table and the entries agree, and the entries are those of these forks;
* `watch_table_of_reaches`: so no reference has two owners, an unwatch finds the owner of the
  reference, and no handler panics for want of a job entry.
-/

namespace Mm1

open Transition Option Function

namespace Container

/-- What a container processes: a system call or a message in the main loop, a message left in
the closed queue, and the end of the main fork. -/
inductive Input where
  | call (call : SysCall)
  | msg (o : Order) (m : SysMsg)
  | drained (isOk : Bool) (o : Order) (m : SysMsg)
  | epilogue (isOk : Bool) (o : Order)

/-- The fork whose job entry a call asks for. -/
def Input.caller : Input → Option Address
  | .call (.link sender _) => some sender
  | .call (.unlink sender _) => some sender
  | .call (.watch sender _) => some sender
  | _ => none

/-- A container with the forks that were added and have not ended; the main fork is there from the
start. -/
structure Loop where
  container : Container
  forks : Finset Address

namespace Loop

def start (mainFork : Address) (linkTo : Finset Address) (order : List Address) : Loop where
  container := create mainFork linkTo order
  forks := {mainFork}

/-- What the container does. -/
def handle (s : Loop) : Input → Option Container
  | .call call => s.container.handleCall call
  | .msg o m => s.container.handleMsg o m
  | .drained isOk o m => s.container.drainMsg isOk o m
  | .epilogue isOk o => s.container.removeFork s.container.mainFork isOk o

/-- The forks after an input. -/
def forksAfter (s : Loop) : Input → Finset Address
  | .call (.forkAdded f) => insert f s.forks
  | .msg _ (.forkDone f) => s.forks.erase f
  | .drained _ _ (.forkDone f) => s.forks.erase f
  | .epilogue _ _ => s.forks.erase s.container.mainFork
  | _ => s.forks

def step (s : Loop) (i : Input) : Option Loop :=
  (s.handle i).map fun container => ⟨container, s.forksAfter i⟩

/-- `link`, `unlink` and `watch` are calls of a fork of the actor. -/
def CallerOk (s : Loop) (i : Input) : Prop := i.caller.all (· ∈ s.forks)

instance (s : Loop) (i : Input) : Decidable (s.CallerOk i) := inferInstanceAs (Decidable (_ = true))

end Loop

variable {k k' : Container} {call : SysCall} {o : Order} {m : SysMsg} {f : Address} {b : Bool}
  {s s' : Loop} {i : Input} {owner target : Address} {r : WatchRef} {e : JobEntry}

/-! ### The forks are those with an entry -/

/-- The forks with a job entry. -/
def HasForks (k : Container) (forks : Finset Address) : Prop :=
  ∀ f, f ∈ forks ↔ (k.jobEntries f).isSome

namespace HasForks

variable {forks : Finset Address}

private theorem of_eq (h : k.HasForks forks) (he : k'.jobEntries = k.jobEntries) :
    k'.HasForks forks := by
  intro f
  rw [h f, he]

/-- An entry is changed. -/
private theorem update {e e' : JobEntry} (h : k.HasForks forks) (he : k.jobEntries f = some e)
    (he' : k'.jobEntries = update k.jobEntries f (some e')) : k'.HasForks forks := by
  intro g
  rw [h g, he']
  by_cases hg : g = f
  · subst hg
    simp [he]
  · rw [update_of_ne hg]

/-- An entry is added. -/
private theorem insert (h : k.HasForks forks)
    (he : k'.jobEntries = Function.update k.jobEntries f (some e)) :
    k'.HasForks (insert f forks) := by
  intro g
  rw [Finset.mem_insert, h g, he]
  by_cases hg : g = f
  · subst hg
    simp
  · simp [hg]

/-- A fork ends. -/
private theorem removeFork (h : k.HasForks forks) (hr : k.removeFork f b o = some k') :
    k'.HasForks (forks.erase f) := by
  obtain ⟨e, -, -, rfl⟩ := removeFork_spec hr
  intro g
  rw [Finset.mem_erase, h g]
  change g ≠ f ∧ _ ↔ (Function.update k.jobEntries f none g).isSome
  by_cases hg : g = f
  · subst hg
    simp
  · simp [hg]

end HasForks

private theorem hasForks_call (h : s.container.HasForks s.forks)
    (hc : CallMoves s.container call k') : k'.HasForks (s.forksAfter (.call call)) := by
  cases hc with
  | exit | trapExit | spawn | linked | unlinked | unwatched => exact h.of_eq rfl
  | forkAdded => exact h.insert rfl
  | link he | unlink he | watch he | unwatch _ he => exact h.update he rfl

private theorem hasForks_msg (h : s.container.HasForks s.forks)
    (hm : MsgMoves s.container o m k') : k'.HasForks (s.forksAfter (.msg o m)) := by
  cases hm with
  | kill => exact h.of_eq rfl
  | forkDone hf => exact h.removeFork hf
  | @refuse _ _ _ hm =>
    cases m with
    | forkDone => contradiction
    | kill | link | watch => exact h.of_eq rfl
  | @recv _ _ _ _ _ hm he hr =>
    cases m with
    | forkDone => contradiction
    | kill | link | watch => exact h.update he hr.entries

/-- A message that is drained. -/
private theorem hasForks_drained (h : s.container.HasForks s.forks)
    (hd : s.container.drainMsg b o m = some k') : k'.HasForks (s.forksAfter (.drained b o m)) := by
  rcases drainMsg_cases hd with ⟨f, rfl, hf⟩ | rfl
  · exact h.removeFork hf
  · cases m with
    | kill | link | watch => exact h.of_eq rfl
    | forkDone f =>
      -- the fork was never added
      have hnone : s.container.jobEntries f = none := by
        by_contra hne
        rw [drainMsg, if_neg (by simpa using hne)] at hd
        obtain ⟨e, -, -, heq⟩ := removeFork_spec hd
        have hlog := congrArg Container.log heq
        simp [send, note, setEntry, untake] at hlog
      have hnot : f ∉ s.forks := by
        rw [h f, hnone]
        simp
      change (s.container.send _).HasForks (s.forks.erase f)
      rw [Finset.erase_eq_of_notMem hnot]
      exact h.of_eq rfl

/-! ### The invariant -/

/-- The table and the entries agree, and the entries are those of the forks. -/
structure Loop.Inv (s : Loop) : Prop where
  watch : s.container.watchState.Ok
  forks : s.container.HasForks s.forks

/-- A new actor has no watches. -/
private theorem Loop.inv_start (mainFork : Address) (linkTo : Finset Address)
    (order : List Address) :
    (start mainFork linkTo order).Inv where
  watch := by
    have hwatching : ∀ f, (create mainFork linkTo order).watching f = ∅ := by
      intro f
      by_cases hf : f = mainFork
      · subst hf
        simp [watching, create]
      · simp [watching, create, hf, absent]
    refine ⟨fun r owner target => ?_, ?_⟩
    · change none = some _ ↔ (target, r) ∈ (create mainFork linkTo order).watching owner
      simp [hwatching]
    · have hnil : Issued (fun _ => none) [] := fun pre _ _ _ post heq => by simp at heq
      have hevents : ∀ e ∈ order.map fun peer => Event.linked mainFork peer,
          e.isWatch = false := by simp [Event.isWatch]
      exact hnil.append hevents
  forks := by
    intro f
    by_cases hf : f = mainFork
    · subst hf
      simp [start, create]
    · simp [start, create, hf, absent]

/-- A step keeps the invariant. -/
private theorem Loop.Inv.step (h : s.Inv) (hs : s.step i = some s') : s'.Inv := by
  obtain ⟨k', hk, rfl⟩ := map_eq_some_iff.mp hs
  cases i with
  | call call =>
    have hc := callMoves_of_handleCall hk
    exact ⟨h.watch.step (watchStep_call hc), hasForks_call h.forks hc⟩
  | msg o m =>
    have hm := msgMoves_of_handleMsg hk
    exact ⟨h.watch.step (watchStep_msg hm), hasForks_msg h.forks hm⟩
  | drained b o m => exact ⟨h.watch.step (watchStep_drain hk), hasForks_drained h.forks hk⟩
  | epilogue b o => exact ⟨h.watch.step (watchStep_removeFork hk), h.forks.removeFork hk⟩

/-! ### What the handlers find -/

/-- A free reference is found, wherever the search begins. -/
private theorem freshWatchRef_isSome {taken : WatchRef → Option TakenWatch} (hr : taken r = none)
    (candidate : WatchRef) : (freshWatchRef taken (2 ^ 64) candidate).isSome := by
  -- with fuel `n` the search looks at the `n` references from the candidate on
  have hsearch : ∀ n candidate, freshWatchRef taken n candidate = none →
      ∀ j < n, taken (candidate + BitVec.ofNat 64 j) ≠ none := by
    intro n
    induction n with
    | zero => intro candidate _ j hj; omega
    | succ n ih =>
      intro candidate h j hj
      rw [freshWatchRef] at h
      split at h
      case isTrue => contradiction
      case isFalse hc =>
        cases j with
        | zero => simpa using hc
        | succ j =>
          have := ih _ h j (by omega)
          rwa [BitVec.add_assoc, BitVec.add_comm 1#64, ← BitVec.ofNat_add] at this
  by_contra hnone
  refine hsearch _ _ (by simpa using hnone) (r - candidate).toNat (r - candidate).isLt ?_
  rw [BitVec.ofNat_toNat, BitVec.setWidth_eq, BitVec.add_comm, BitVec.sub_add_cancel, hr]

/-- A reference is taken exactly if the entry of its owner has it. -/
private theorem Loop.Inv.taken_iff (h : s.Inv) :
    s.container.takenWatchRefs r = some ⟨owner, target⟩ ↔
      ∃ e, s.container.jobEntries owner = some e ∧ (target, r) ∈ e.watches := by
  have htaken : s.container.takenWatchRefs r = some ⟨owner, target⟩ ↔
      (target, r) ∈ s.container.watching owner := h.watch.taken r owner target
  rw [htaken]
  constructor
  · intro hmem
    cases he : s.container.jobEntries owner with
    | none => simp [watching, he] at hmem
    | some e => exact ⟨e, rfl, watching_of_entry he ▸ hmem⟩
  · rintro ⟨e, he, hmem⟩
    rwa [watching_of_entry he]

/-- An unwatch takes the reference from the table and from its owner, whoever calls. -/
private theorem handleUnwatch_of_owner (hr : k.takenWatchRefs r = some ⟨owner, target⟩)
    (he : k.jobEntries owner = some e) :
    ∃ k', k.handleUnwatch r = some k' ∧
      k'.jobEntries = update k.jobEntries owner
        (some { e with watches := e.watches.erase (target, r) }) ∧
      k'.takenWatchRefs = update k.takenWatchRefs r none := by
  have hr' : (k.note [.unwatched r]).takenWatchRefs r = some ⟨owner, target⟩ := hr
  have he' : (k.note [.unwatched r]).jobEntries owner = some e := he
  simp only [handleUnwatch, hr', he']
  refine ⟨_, rfl, rfl, ?_⟩
  funext r'
  simp only [send, setEntry, untake, note, List.mem_singleton, update_apply]

/-- An unwatch of a reference that is taken finds the entry of the owner. -/
private theorem Loop.Inv.unwatch (h : s.Inv)
    (hr : s.container.takenWatchRefs r = some ⟨owner, target⟩) :
    ∃ e k', s.container.jobEntries owner = some e ∧
      s.container.handleUnwatch r = some k' ∧
      k'.jobEntries = update s.container.jobEntries owner
        (some { e with watches := e.watches.erase (target, r) }) ∧
      k'.takenWatchRefs = update s.container.takenWatchRefs r none := by
  obtain ⟨e, he, -⟩ := h.taken_iff.mp hr
  obtain ⟨k', hk⟩ := handleUnwatch_of_owner hr he
  exact ⟨e, k', he, hk⟩

/-- No unwatch panics, of whatever reference. -/
private theorem Loop.Inv.handleUnwatch_isSome (h : s.Inv) (r : WatchRef) :
    (s.container.handleUnwatch r).isSome := by
  cases hr : s.container.takenWatchRefs r with
  | none => simp [handleUnwatch, note, hr]
  | some w =>
    have hr' : s.container.takenWatchRefs r = some ⟨w.owner, w.target⟩ := hr
    obtain ⟨e, k', -, hk, -⟩ := h.unwatch hr'
    exact isSome_iff_exists.mpr ⟨k', hk⟩

/-- The calls of a fork that is there find its entry. -/
private theorem Loop.Inv.calls_isSome (h : s.Inv) {caller : Address} (hcaller : caller ∈ s.forks)
    (peer : Address) :
    (s.container.handleCall (.link caller peer)).isSome ∧
      (s.container.handleCall (.unlink caller peer)).isSome ∧
      ((∃ r, s.container.takenWatchRefs r = none) →
        (s.container.handleCall (.watch caller peer)).isSome) := by
  obtain ⟨e, he⟩ := isSome_iff_exists.mp ((h.forks caller).mp hcaller)
  refine ⟨?_, ?_, ?_⟩
  · simp only [handleCall, handleLink, he]
    split <;> rfl
  · simp only [handleCall, handleUnlink, he]
    split <;> rfl
  · rintro ⟨r, hr⟩
    obtain ⟨⟨ref, next⟩, hfresh⟩ := isSome_iff_exists.mp
      (freshWatchRef_isSome hr s.container.nextWatchRef)
    simp only [handleCall, handleWatch, he, hfresh]
    rfl

/-- **The watch table and the job entries agree.** After any calls and messages, with `link`,
`unlink` and `watch` called by forks that were added and have not ended: a reference is taken for
an owner and a target exactly if the owner's entry has the watch; no two forks have the same
reference; an unwatch by any fork removes the watch from its owner and from nobody else; and the
entries of the caller and of the owner are there. A watch is given a reference as long as one is
free. -/
theorem watch_table_of_reaches {mainFork : Address} {linkTo : Finset Address}
    {order : List Address}
    (h : Reaches Loop.step Loop.CallerOk (Loop.start mainFork linkTo order) s) :
    (∀ r owner target, s.container.takenWatchRefs r = some ⟨owner, target⟩ ↔
        ∃ e, s.container.jobEntries owner = some e ∧ (target, r) ∈ e.watches) ∧
      (∀ r f f' e e' target target', s.container.jobEntries f = some e →
        s.container.jobEntries f' = some e' → (target, r) ∈ e.watches →
        (target', r) ∈ e'.watches → f = f' ∧ target = target') ∧
      (∀ caller r owner target, s.container.takenWatchRefs r = some ⟨owner, target⟩ →
        ∃ e k', s.container.jobEntries owner = some e ∧
          s.container.handleCall (.unwatch caller r) = some k' ∧
          k'.jobEntries = update s.container.jobEntries owner
            (some { e with watches := e.watches.erase (target, r) }) ∧
          k'.takenWatchRefs = update s.container.takenWatchRefs r none) ∧
      (∀ caller r, (s.container.handleCall (.unwatch caller r)).isSome) ∧
      ∀ caller ∈ s.forks, ∀ peer,
        (s.container.handleCall (.link caller peer)).isSome ∧
          (s.container.handleCall (.unlink caller peer)).isSome ∧
          ((∃ r, s.container.takenWatchRefs r = none) →
            (s.container.handleCall (.watch caller peer)).isSome) := by
  have hinv : s.Inv := h.invariant (Loop.inv_start mainFork linkTo order) fun ih _ hs => ih.step hs
  refine ⟨fun _ _ _ => hinv.taken_iff, ?_, fun _ _ _ _ => hinv.unwatch,
    fun _ => hinv.handleUnwatch_isSome, fun _ => hinv.calls_isSome⟩
  intro r f f' e e' target target' he he' hmem hmem'
  have hr := hinv.taken_iff.mpr ⟨e, he, hmem⟩
  have hr' := hinv.taken_iff.mpr ⟨e', he', hmem'⟩
  exact TakenWatch.mk.inj (some.inj (hr.symm.trans hr'))

/-- A fork watches `<9>`, and the main fork cancels that watch. -/
theorem unwatch_by_main_fork :
    ∃ s, Reaches Loop.step Loop.CallerOk (Loop.start ⟨1#64⟩ ∅ []) s ∧
      s.container.takenWatchRefs 0#64 = some ⟨⟨2#64⟩, ⟨9#64⟩⟩ ∧
      ∃ e k', s.container.jobEntries ⟨2#64⟩ = some e ∧ (⟨9#64⟩, 0#64) ∈ e.watches ∧
        s.container.handleCall (.unwatch ⟨1#64⟩ 0#64) = some k' ∧
        k'.jobEntries = update s.container.jobEntries ⟨2#64⟩
          (some { e with watches := e.watches.erase (⟨9#64⟩, 0#64) }) := by
  have hreach : Reaches Loop.step Loop.CallerOk (Loop.start ⟨1#64⟩ ∅ []) _ :=
    reaches_get [.call (.forkAdded ⟨2#64⟩), .call (.watch ⟨2#64⟩ ⟨9#64⟩)] (by decide)
  obtain ⟨htaken, -, hunwatch, -⟩ := watch_table_of_reaches hreach
  obtain ⟨e, k', he, hk, hentries, -⟩ := hunwatch ⟨1#64⟩ 0#64 ⟨2#64⟩ ⟨9#64⟩ (by decide)
  obtain ⟨e', he', hmem⟩ := (htaken 0#64 ⟨2#64⟩ ⟨9#64⟩).mp (by decide)
  obtain rfl := some.inj (he.symm.trans he')
  exact ⟨_, hreach, by decide, e, k', he, hmem, hk, hentries⟩

end Container

end Mm1
