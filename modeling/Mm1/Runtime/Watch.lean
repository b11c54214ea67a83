import Mm1.Runtime.WatchPending

/-!
# A watch is reported once

* `Fate`: what the log of a container may say about a watch reference since it was last given
  out;
* `WatchState.Ok`: the references that are taken are the ones the job entries hold, and each one
  given out has met its fate;
* `watch_reported_once`: at most one `Down` per reference, none after `Unwatch`, and exactly one
  once the target has ended and all messages are processed, unless the watch was given up.
-/

namespace Mm1

open Settle Transition List Function

/-- A `Down` that carries the reference `r` is put into a priority lane. -/
def Event.reports (r : WatchRef) : Event → Bool
  | .down _ _ r' _ => r' = r
  | _ => false

/-- The event is about watches, or about the end of a fork that may own some. -/
def Event.isWatch : Event → Bool
  | .watched _ _ _ | .unwatched _ | .down _ _ _ _ | .ended _ => true
  | _ => false

/-- What `post` says about the reference `r`, given out to `owner` for `target` before it, when
the container has it as `taken` now. -/
structure Fate (taken : Option TakenWatch) (owner target : Address) (r : WatchRef)
    (post : List Event) : Prop where
  /-- a report goes to the owner and names the target -/
  lane : ∀ f peer b, .down f peer r b ∈ post → f = owner ∧ peer = target
  /-- nothing is reported after `Unwatch` -/
  quiet : post.Pairwise fun e e' => e = .unwatched r → e'.reports r = false
  /-- the watch stands, was reported once, or was given up -/
  fate :
    taken = some ⟨owner, target⟩ ∧ post.countP (Event.reports r) = 0 ∧
      .unwatched r ∉ post ∧ .ended owner ∉ post ∨
    taken = none ∧ (post.countP (Event.reports r) = 1 ∨
      post.countP (Event.reports r) = 0 ∧ (.unwatched r ∈ post ∨ .ended owner ∈ post))

variable {b : Bool} {events : List Event}

namespace Fate

variable {taken : Option TakenWatch} {owner target : Address} {r : WatchRef} {post : List Event}
  {e : Event}

private theorem start : Fate (some ⟨owner, target⟩) owner target r [] where
  lane _ _ _ h := absurd h not_mem_nil
  quiet := List.Pairwise.nil
  fate := .inl ⟨rfl, rfl, not_mem_nil, not_mem_nil⟩

private theorem pairwise_concat {R : Event → Event → Prop} (h : post.Pairwise R)
    (he : ∀ e' ∈ post, R e' e) : (post ++ [e]).Pairwise R := by
  refine pairwise_append.mpr ⟨h, pairwise_singleton _ _, ?_⟩
  intro e' he' e'' he''
  rw [mem_singleton.mp he'']
  exact he e' he'

/-- An event that is not a report keeps a report where it was. -/
private theorem lane_concat (h : Fate taken owner target r post) (he : e.reports r = false) :
    ∀ f peer b, .down f peer r b ∈ post ++ [e] → f = owner ∧ peer = target := by
  intro f peer b hmem
  rcases mem_append.mp hmem with hmem | hmem
  · exact h.lane f peer b hmem
  · rw [← mem_singleton.mp hmem, Event.reports, decide_eq_false_iff_not] at he
    exact absurd rfl he

private theorem countP_concat (he : e.reports r = false) :
    (post ++ [e]).countP (Event.reports r) = post.countP (Event.reports r) := by
  rw [countP_append, countP_singleton, if_neg (by simp [he]), Nat.add_zero]

/-- An event about something else. -/
private theorem other (h : Fate taken owner target r post) (he : e.reports r = false)
    (hu : e ≠ .unwatched r) (hend : e ≠ .ended owner) :
    Fate taken owner target r (post ++ [e]) where
  lane := h.lane_concat he
  quiet := pairwise_concat h.quiet fun _ _ _ => he
  fate := by
    rw [countP_concat he]
    simpa [Ne.symm hu, Ne.symm hend] using h.fate

/-- `Unwatch` and the end of the owner give a watch up; they change nothing later. -/
private theorem giveUp (h : Fate taken owner target r post) (he : e.reports r = false)
    (hgive : e = .unwatched r ∨ e = .ended owner) : Fate none owner target r (post ++ [e]) where
  lane := h.lane_concat he
  quiet := pairwise_concat h.quiet fun _ _ _ => he
  fate := by
    refine .inr ⟨rfl, ?_⟩
    rw [countP_concat he]
    have hmem : .unwatched r ∈ post ++ [e] ∨ .ended owner ∈ post ++ [e] := by
      rcases hgive with rfl | rfl
      · exact .inl (by simp)
      · exact .inr (by simp)
    rcases h.fate with ⟨-, hcount, -⟩ | ⟨-, hcount | ⟨hcount, -⟩⟩
    · exact .inr ⟨hcount, hmem⟩
    · exact .inl hcount
    · exact .inr ⟨hcount, hmem⟩

/-- A standing watch is reported. -/
private theorem report (h : Fate (some ⟨owner, target⟩) owner target r post) :
    Fate none owner target r (post ++ [.down owner target r b]) where
  lane := by
    intro f peer b' hmem
    rcases mem_append.mp hmem with hmem | hmem
    · exact h.lane f peer b' hmem
    · cases mem_singleton.mp hmem
      exact ⟨rfl, rfl⟩
  quiet := by
    rcases h.fate with ⟨-, -, hu, -⟩ | ⟨hnone, -⟩
    · exact pairwise_concat h.quiet fun e' he' heq => absurd (heq ▸ he') hu
    · contradiction
  fate := by
    rcases h.fate with ⟨-, hcount, -, -⟩ | ⟨hnone, -⟩
    · refine .inr ⟨rfl, .inl ?_⟩
      simp [countP_append, hcount, Event.reports]
    · contradiction

end Fate

/-- Every reference given out has met its fate. -/
def Issued (taken : WatchRef → Option TakenWatch) (log : List Event) : Prop :=
  ∀ pre owner target r post, log = pre ++ .watched owner target r :: post →
    (∀ o t, .watched o t r ∉ post) → Fate (taken r) owner target r post

namespace Issued

variable {taken taken' : WatchRef → Option TakenWatch} {log : List Event} {e : Event}
  {owner target : Address} {refs : List WatchRef} {r : WatchRef}

section Issue

variable (h : Issued taken log)

include h

/-- One more event. -/
private theorem concat (hnew : ∀ o t r, e = .watched o t r → taken' r = some ⟨o, t⟩)
    (hold : ∀ o t r post, (∀ o t, e ≠ .watched o t r) → Fate (taken r) o t r post →
      Fate (taken' r) o t r (post ++ [e])) : Issued taken' (log ++ [e]) := by
  intro pre owner target r post heq hfresh
  rcases eq_nil_or_concat' post with rfl | ⟨post, e', rfl⟩
  · obtain ⟨-, he⟩ := append_inj' heq rfl
    rw [hnew owner target r (List.cons.inj he).1]
    exact .start
  · rw [← cons_append, ← append_assoc] at heq
    obtain ⟨hlog, he⟩ := append_inj' heq rfl
    obtain rfl := (List.cons.inj he).1
    refine hold owner target r post (fun o t hwatched => hfresh o t ?_) ?_
    · rw [hwatched]
      simp
    · exact h pre owner target r post hlog fun o t hmem => hfresh o t (mem_append_left _ hmem)

/-- Events that are not about watches. -/
theorem append (hevents : ∀ e ∈ events, e.isWatch = false) : Issued taken (log ++ events) := by
  induction events using List.reverseRecOn with
  | nil => rwa [append_nil]
  | append_singleton events e ih =>
    have he : e.isWatch = false := hevents e (by simp)
    rw [← append_assoc]
    refine (ih fun e he => hevents e (mem_append_left _ he)).concat ?_ ?_
    · rintro o t r rfl
      contradiction
    · intro o t r post _ hfate
      refine hfate.other ?_ ?_ ?_
      · cases e <;> first | rfl | contradiction
      · rintro rfl
        contradiction
      · rintro rfl
        contradiction

/-- A peer goes down: its standing watches are reported one after the other. -/
private theorem reported (hrefs : refs.Nodup)
    (htaken : ∀ r ∈ refs, taken r = some ⟨owner, target⟩) :
    Issued (fun r => if r ∈ refs then none else taken r)
      (log ++ refs.map fun r => .down owner target r b) := by
  induction refs using List.reverseRecOn with
  | nil => simpa using h
  | append_singleton refs ref ih =>
    obtain ⟨hnodup, -, hdisj⟩ := nodup_append.mp hrefs
    have hnotMem : ref ∉ refs := fun hmem => hdisj ref hmem ref (mem_singleton_self _) rfl
    rw [map_append, ← append_assoc]
    refine (ih hnodup fun r hr => htaken r (mem_append_left _ hr)).concat ?_ ?_
    · intro o t r heq
      contradiction
    · intro o t r post _ hfate
      by_cases hr : r = ref
      · subst hr
        rw [if_neg hnotMem, htaken r (by simp)] at hfate
        rw [if_pos (by simp)]
        rcases hfate.fate with ⟨heq, -⟩ | ⟨heq, -⟩
        · cases heq
          exact hfate.report
        · contradiction
      · have hmem : r ∈ refs ++ [ref] ↔ r ∈ refs := by simp [hr]
        rw [if_congr hmem rfl rfl]
        exact hfate.other (decide_eq_false (Ne.symm hr)) nofun nofun

/-- A reference is given out; it was free. -/
private theorem watched :
    Issued (update taken r (some ⟨owner, target⟩))
      (log ++ [.watched owner target r]) := by
  refine h.concat ?_ ?_
  · intro o t r' heq
    cases heq
    exact update_self _ _ _
  · intro o t r' post hne hfate
    have hr' : r' ≠ r := fun heq => hne owner target (heq ▸ rfl)
    rw [update_of_ne hr']
    exact hfate.other rfl nofun nofun

/-- `Unwatch` gives one reference up. -/
private theorem unwatched :
    Issued (fun r' => if r' ∈ [r] then none else taken r') (log ++ [.unwatched r]) := by
  refine h.concat (fun _ _ _ heq => nomatch heq) fun o t r' post _ hfate => ?_
  by_cases hr' : r' = r
  · subst hr'
    rw [if_pos (mem_singleton_self _)]
    exact hfate.giveUp rfl (.inl rfl)
  · rw [if_neg (fun hmem => hr' (mem_singleton.mp hmem))]
    exact hfate.other rfl (fun heq => hr' (Event.unwatched.inj heq).symm) nofun

/-- The end of a fork gives all its references up. -/
private theorem ended {f : Address} (hrefs : ∀ r o t, taken r = some ⟨o, t⟩ → (r ∈ refs ↔ o = f)) :
    Issued (fun r => if r ∈ refs then none else taken r) (log ++ [.ended f]) := by
  refine h.concat (fun _ _ _ heq => nomatch heq) fun o t r post _ hfate => ?_
  have hcases : o = f ∧ (if r ∈ refs then none else taken r) = none ∨
      o ≠ f ∧ (if r ∈ refs then none else taken r) = taken r := by
    rcases hfate.fate with ⟨hr, -⟩ | ⟨hr, -⟩
    · by_cases ho : o = f
      · exact .inl ⟨ho, if_pos ((hrefs r o t hr).mpr ho)⟩
      · exact .inr ⟨ho, if_neg fun hmem => ho ((hrefs r o t hr).mp hmem)⟩
    · rw [hr, ite_self]
      exact (eq_or_ne o f).imp (⟨·, rfl⟩) (⟨·, rfl⟩)
  rcases hcases with ⟨rfl, hnone⟩ | ⟨ho, hsame⟩
  · rw [hnone]
    exact hfate.giveUp rfl (.inr rfl)
  · rw [hsame]
    exact hfate.other rfl nofun fun heq => ho (Event.ended.inj heq).symm

end Issue

end Issued

namespace Container

variable {ι : Type*} [DecidableEq ι] {home : Address → ι} {c : ι} {k k' : Container}
  {a : TaskAction} {f : Address} {o : Order} {m : SysMsg} {e e' : JobEntry}

/-- The watches a fork holds. -/
def watching (k : Container) (f : Address) : Finset (Address × WatchRef) :=
  match k.jobEntries f with
  | none => ∅
  | some e => e.watches

/-- What a container knows about watches, and its log. -/
structure WatchState where
  taken : WatchRef → Option TakenWatch
  watching : Address → Finset (Address × WatchRef)
  log : List Event

def watchState (k : Container) : WatchState := ⟨k.takenWatchRefs, k.watching, k.log⟩

/-- The invariant about watches that one container keeps on its own. -/
structure WatchState.Ok (w : WatchState) : Prop where
  taken : ∀ r owner target, w.taken r = some ⟨owner, target⟩ ↔ (target, r) ∈ w.watching owner
  issued : Issued w.taken w.log

/-- What an action does to the watches of a container. -/
inductive WatchStep (w w' : WatchState) : Prop
  | other (htaken : w'.taken = w.taken) (hw : w'.watching = w.watching)
      (hlog : ∃ events, w'.log = w.log ++ events ∧ ∀ e ∈ events, e.isWatch = false)
  | watch {owner target : Address} {r : WatchRef} (hr : w.taken r = none)
      (htaken : w'.taken = update w.taken r (some ⟨owner, target⟩))
      (hw : w'.watching = update w.watching owner (insert (target, r) (w.watching owner)))
      (hlog : w'.log = w.log ++ [.watched owner target r])
  | unwatch {owner target : Address} {r : WatchRef} (hr : w.taken r = some ⟨owner, target⟩)
      (htaken : w'.taken = fun r' => if r' ∈ [r] then none else w.taken r')
      (hw : w'.watching = update w.watching owner ((w.watching owner).erase (target, r)))
      (hlog : w'.log = w.log ++ [.unwatched r])
  | unwatchNone {r : WatchRef} (hr : w.taken r = none) (htaken : w'.taken = w.taken)
      (hw : w'.watching = w.watching) (hlog : w'.log = w.log ++ [.unwatched r])
  | ended (f : Address) (targets : List (Address × WatchRef))
      (htargets : ∀ p, p ∈ targets ↔ p ∈ w.watching f)
      (htaken : w'.taken = fun r => if r ∈ targets.map Prod.snd then none else w.taken r)
      (hw : w'.watching = update w.watching f ∅) (hlog : w'.log = w.log ++ [.ended f])
  | down (owner target : Address) {refs : List WatchRef} {b : Bool} (hnodup : refs.Nodup)
      (hrefs : ∀ r, r ∈ refs ↔ (target, r) ∈ w.watching owner)
      (htaken : w'.taken = fun r => if r ∈ refs then none else w.taken r)
      (hw : w'.watching = update w.watching owner ((w.watching owner).filter fun p => p.1 ≠ target))
      (hlog : w'.log = w.log ++ refs.map fun r => .down owner target r b)

theorem watching_of_entry {e : JobEntry} (he : k.jobEntries f = some e) :
    k.watching f = e.watches := by
  simp only [watching, he]

private theorem watching_setEntry {e : Option JobEntry} :
    (k.setEntry f e).watching =
      update k.watching f (match e with | none => ∅ | some e => e.watches) := by
  funext z
  by_cases hz : z = f
  · subst hz
    simp only [watching, setEntry, update_self]
  · simp only [watching, setEntry, update_of_ne hz]

/-- An entry whose watches stay. -/
private theorem watching_setEntry_same (he : k.jobEntries f = some e)
    (hw : e'.watches = e.watches) :
    (k.setEntry f (some e')).watching = k.watching := by
  rw [watching_setEntry]
  refine update_eq_self_iff.mpr ?_
  simp only [watching, he, hw]

private theorem watchStep_same (he : k'.jobEntries = k.jobEntries)
    (htaken : k'.takenWatchRefs = k.takenWatchRefs) (hlog : k'.log = k.log ++ events)
    (hevents : ∀ e ∈ events, e.isWatch = false) : WatchStep k.watchState k'.watchState := by
  refine .other htaken ?_ ⟨events, hlog, hevents⟩
  funext z
  simp only [watchState, watching, he]

/-- Nothing is said about watches. -/
private theorem watchStep_stay (he : k'.jobEntries = k.jobEntries)
    (htaken : k'.takenWatchRefs = k.takenWatchRefs) (hlog : k'.log = k.log) :
    WatchStep k.watchState k'.watchState :=
  watchStep_same he htaken (hlog.trans (append_nil _).symm)
    fun _ h => absurd h not_mem_nil

private theorem watchStep_entry (he : k.jobEntries f = some e)
    (he' : k'.jobEntries = update k.jobEntries f (some e')) (hw : e'.watches = e.watches)
    (htaken : k'.takenWatchRefs = k.takenWatchRefs) (hlog : k'.log = k.log ++ events)
    (hevents : ∀ e ∈ events, e.isWatch = false) : WatchStep k.watchState k'.watchState := by
  refine .other htaken ?_ ⟨events, hlog, hevents⟩
  change k'.watching = k.watching
  rw [← watching_setEntry_same he hw]
  funext z
  simp only [watching, setEntry, he']

private theorem watchStep_entry_stay (he : k.jobEntries f = some e)
    (he' : k'.jobEntries = update k.jobEntries f (some e')) (hw : e'.watches = e.watches)
    (htaken : k'.takenWatchRefs = k.takenWatchRefs) (hlog : k'.log = k.log) :
    WatchStep k.watchState k'.watchState :=
  watchStep_entry he he' hw htaken (hlog.trans (append_nil _).symm)
    fun _ h => absurd h not_mem_nil

theorem watchStep_removeFork (h : k.removeFork f b o = some k') :
    WatchStep k.watchState k'.watchState := by
  obtain ⟨e, he, ⟨htargets, -, -⟩, rfl⟩ := removeFork_spec h
  refine .ended f o.targets (fun p => ?_) rfl ?_ rfl
  · simp only [htargets.mem_iff, watchState, watching, he]
  · exact watching_setEntry

/-- What a call does to the watches. -/
theorem watchStep_call {call : SysCall} (h : CallMoves k call k') :
    WatchStep k.watchState k'.watchState := by
  cases h with
  | exit | trapExit | spawn | unlinked => exact watchStep_stay rfl rfl rfl
  | linked => exact watchStep_same rfl rfl rfl (by simp [Event.isWatch])
  | @forkAdded f he =>
    refine .other rfl ?_ ⟨[], (append_nil _).symm, fun _ h => absurd h not_mem_nil⟩
    change (k.setEntry f (some {})).watching = k.watching
    rw [watching_setEntry]
    refine update_eq_self_iff.mpr ?_
    simp only [watching, he]
  | link he => exact watchStep_entry he rfl rfl rfl rfl (by simp [Event.isWatch])
  | unlink he => exact watchStep_entry_stay he rfl rfl rfl rfl
  | @watch x y e r next he hr =>
    refine .watch hr rfl ?_ rfl
    change _ = update k.watching x (insert (y, r) (k.watching x))
    rw [watching_of_entry he]
    exact watching_setEntry (k := k)
  | unwatched hr => exact .unwatchNone hr rfl rfl rfl
  | @unwatch x owner target e r hr he =>
    refine .unwatch hr rfl ?_ rfl
    change _ = update k.watching owner ((k.watching owner).erase (target, r))
    rw [watching_of_entry he]
    exact watching_setEntry (k := k)

/-- A fork handles a message: only a `Down` is about watches. -/
private theorem watchStep_recv {e : JobEntry} {z : Address} (hm : m.route = some (z, f))
    (he : k.jobEntries f = some e) (h : Received o f e m k k') :
    WatchStep k.watchState k'.watchState := by
  rcases h.taken with ⟨hdown, htaken⟩ | ⟨x, reason, rfl, hrefs, htaken⟩
  · refine watchStep_entry he h.entries ?_ htaken h.log ?_
    · cases m with
      | kill | forkDone => rfl
      | link l =>
        cases l with
        | connect | disconnect => rfl
        | exit _ _ reason => cases reason <;> rfl
      | watch w =>
        cases w with
        | watch | unwatch => rfl
        | down x y reason => exact absurd rfl (hdown x y reason)
    · intro ev hev
      unfold JobEntry.recvEvents at hev
      split at hev
      case h_1 =>
        rw [mem_singleton.mp hev]
        rfl
      case h_2 =>
        rcases mem_cons.mp hev with rfl | hev
        · rfl
        · split at hev
          · rw [mem_singleton.mp hev]
            rfl
          · exact absurd hev not_mem_nil
      case h_3 x y reason => exact absurd rfl (hdown x y reason)
      case h_4 => exact absurd hev not_mem_nil
  · have hwatching : k.watchState.watching f = e.watches := watching_of_entry (k := k) he
    refine .down f x hrefs.1 (fun r => ?_) htaken ?_ h.log
    · rw [hrefs.mem_iff, JobEntry.mem_refsOf, hwatching]
    · rw [hwatching]
      have hsame : k'.watching =
          (k.setEntry f (some (e.recv (.watch (.down x f reason))))).watching := by
        funext y
        simp only [watching, setEntry, h.entries]
      exact hsame.trans watching_setEntry

theorem watchStep_msg (h : MsgMoves k o m k') : WatchStep k.watchState k'.watchState := by
  cases h with
  | kill | refuse => exact watchStep_stay rfl rfl rfl
  | forkDone hf => exact watchStep_removeFork hf
  | recv hm he hk => exact watchStep_recv hm he hk

theorem watchStep_drain (h : k.drainMsg b o m = some k') :
    WatchStep k.watchState k'.watchState := by
  rcases drainMsg_cases h with ⟨f, -, hf⟩ | rfl
  · exact watchStep_removeFork hf
  · exact watchStep_stay rfl rfl rfl

/-- What the task of a container does to its watches. -/
private theorem watchStep_of_act (hw : Wf home c k) (h : k.act home c a = some k') :
    WatchStep k.watchState k'.watchState := by
  cases taskMoves_of_act h with
  | @create f linkTo order hp =>
    obtain rfl := hw.absent hp
    refine .other rfl ?_ ⟨_, rfl, by simp [Event.isWatch]⟩
    change (absent.setEntry f (some { linkedTo := linkTo })).watching = absent.watching
    rw [watching_setEntry]
    exact update_eq_self_iff.mpr rfl
  | call _ _ _ hcall => exact watchStep_call hcall
  | @recv _ _ rest _ _ _ _ hmsg => exact watchStep_msg (k := { k with rxSystem := rest }) hmsg
  | dropFork | dropUnapplied | unregister | close => exact watchStep_stay rfl rfl rfl
  | @drain _ _ _ rest _ _ _ _ hmsg =>
    exact watchStep_drain (k := { k with rxSystem := rest }) hmsg
  | @epilogue _ b k' _ _ _ hf =>
    have hstep := watchStep_removeFork hf
    exact hstep

/-! ### The invariant -/

namespace WatchState.Ok

variable {w w' : WatchState} {owner target : Address} {r : WatchRef} {refs : List WatchRef}

/-- A reference belongs to one owner and one target. -/
private theorem eq_of_mem {o t : Address} (h : w.Ok) (hmem : (t, r) ∈ w.watching o)
    (hr : w.taken r = some ⟨owner, target⟩) : o = owner ∧ t = target := by
  have heq := ((h.taken r o t).mpr hmem).symm.trans hr
  cases heq
  exact ⟨rfl, rfl⟩

/-- References are given back, each together with the watch it stands for. -/
private theorem drop (h : w.Ok)
    (htaken : w'.taken = fun r => if r ∈ refs then none else w.taken r)
    (hw : ∀ r o t, (t, r) ∈ w'.watching o ↔ (t, r) ∈ w.watching o ∧ r ∉ refs)
    (hissued : Issued w'.taken w'.log) : w'.Ok := by
  refine ⟨fun r o t => ?_, hissued⟩
  rw [hw, ← h.taken, htaken]
  by_cases hr : r ∈ refs
  · simp [hr]
  · simp [hr]

/-- A new watch. -/
private theorem watch (h : w.Ok) (hr : w.taken r = none)
    (htaken : w'.taken = update w.taken r (some ⟨owner, target⟩))
    (hw : w'.watching = update w.watching owner (insert (target, r) (w.watching owner)))
    (hlog : w'.log = w.log ++ [.watched owner target r]) : w'.Ok := by
  refine ⟨fun r' o t => ?_, ?_⟩
  · have hfree : ∀ o t, (t, r) ∉ w.watching o := fun o t hmem => by
      have heq := (h.taken r o t).mpr hmem
      rw [hr] at heq
      contradiction
    rw [htaken, hw]
    by_cases hr' : r' = r
    · subst hr'
      by_cases ho : o = owner
      · subst ho
        simp [hfree, eq_comm]
      · simp [ho, hfree, Ne.symm ho]
    · rw [update_of_ne hr', h.taken]
      by_cases ho : o = owner
      · subst ho
        simp [hr']
      · simp [ho]
  · rw [htaken, hlog]
    exact h.issued.watched

/-- A watch is cancelled. -/
private theorem unwatch (h : w.Ok) (hr : w.taken r = some ⟨owner, target⟩)
    (htaken : w'.taken = fun r' => if r' ∈ [r] then none else w.taken r')
    (hw : w'.watching = update w.watching owner ((w.watching owner).erase (target, r)))
    (hlog : w'.log = w.log ++ [.unwatched r]) : w'.Ok := by
  refine h.drop htaken (fun r' o t => ?_) ?_
  · rw [hw, mem_singleton]
    by_cases ho : o = owner
    · subst ho
      rw [update_self, Finset.mem_erase, and_comm]
      refine and_congr_right fun hmem => not_congr ⟨fun heq => (Prod.mk.inj heq).2, ?_⟩
      rintro rfl
      rw [(h.eq_of_mem hmem hr).2]
    · rw [update_of_ne ho]
      refine ⟨fun hmem => ⟨hmem, ?_⟩, And.left⟩
      rintro rfl
      exact ho (h.eq_of_mem hmem hr).1
  · rw [htaken, hlog]
    exact h.issued.unwatched

private theorem ended {f : Address} {targets : List (Address × WatchRef)} (h : w.Ok)
    (htargets : ∀ p, p ∈ targets ↔ p ∈ w.watching f)
    (htaken : w'.taken = fun r => if r ∈ targets.map Prod.snd then none else w.taken r)
    (hw : w'.watching = update w.watching f ∅) (hlog : w'.log = w.log ++ [.ended f]) :
    w'.Ok := by
  -- the references that are given back are the ones of `f`
  have hrefs : ∀ r o t, w.taken r = some ⟨o, t⟩ → (r ∈ targets.map Prod.snd ↔ o = f) := by
    intro r o t hr
    constructor
    · intro hmem
      obtain ⟨p, hp, rfl⟩ := mem_map.mp hmem
      exact (h.eq_of_mem ((htargets p).mp hp) hr).1.symm
    · rintro rfl
      exact mem_map_of_mem ((htargets (t, r)).mpr ((h.taken r o t).mp hr))
  refine h.drop htaken (fun r o t => ?_) ?_
  · rw [hw]
    by_cases ho : o = f
    · subst ho
      rw [update_self]
      refine iff_of_false (Finset.notMem_empty _) fun ⟨hmem, hr⟩ => hr ?_
      exact (hrefs r o t ((h.taken r o t).mpr hmem)).mpr rfl
    · rw [update_of_ne ho]
      refine ⟨fun hmem => ⟨hmem, fun hr => ho ?_⟩, And.left⟩
      exact (hrefs r o t ((h.taken r o t).mpr hmem)).mp hr
  · rw [htaken, hlog]
    exact h.issued.ended hrefs

/-- The watches of one target are answered. -/
private theorem down (h : w.Ok) (hnodup : refs.Nodup)
    (hrefs : ∀ r, r ∈ refs ↔ (target, r) ∈ w.watching owner)
    (htaken : w'.taken = fun r => if r ∈ refs then none else w.taken r)
    (hw : w'.watching = update w.watching owner ((w.watching owner).filter fun p => p.1 ≠ target))
    (hlog : w'.log = w.log ++ refs.map fun r => .down owner target r b) : w'.Ok := by
  have hstands : ∀ r ∈ refs, w.taken r = some ⟨owner, target⟩ := fun r hr =>
    (h.taken r owner target).mpr ((hrefs r).mp hr)
  refine h.drop htaken (fun r o t => ?_) ?_
  · rw [hw]
    by_cases ho : o = owner
    · subst ho
      rw [update_self, Finset.mem_filter]
      refine and_congr_right fun hmem => not_congr ⟨?_, fun hr => ?_⟩
      · rintro rfl
        exact (hrefs r).mpr hmem
      · exact (h.eq_of_mem hmem (hstands r hr)).2
    · rw [update_of_ne ho]
      exact ⟨fun hmem => ⟨hmem, fun hr => ho (h.eq_of_mem hmem (hstands r hr)).1⟩, And.left⟩
  · rw [htaken, hlog]
    exact h.issued.reported hnodup hstands

/-- An action of the container keeps the invariant. -/
theorem step (h : w.Ok) (hs : WatchStep w w') : w'.Ok := by
  cases hs with
  | other htaken hw hlog =>
    obtain ⟨events, hlog, hevents⟩ := hlog
    refine ⟨by rw [htaken, hw]; exact h.taken, ?_⟩
    rw [htaken, hlog]
    exact h.issued.append hevents
  | watch hr htaken hw hlog => exact h.watch hr htaken hw hlog
  | unwatch hr htaken hw hlog => exact h.unwatch hr htaken hw hlog
  | @unwatchNone r hr htaken hw hlog =>
    refine ⟨by rw [htaken, hw]; exact h.taken, ?_⟩
    have hsame : w.taken = fun r' => if r' ∈ [r] then none else w.taken r' := by
      funext r'
      by_cases hr' : r' = r
      · simp [hr', hr]
      · simp [hr']
    rw [htaken, hlog, hsame]
    exact h.issued.unwatched
  | ended f targets htargets htaken hw hlog => exact h.ended htargets htaken hw hlog
  | down owner target hnodup hrefs htaken hw hlog => exact h.down hnodup hrefs htaken hw hlog

end WatchState.Ok

end Container

namespace Sys

variable {ι : Type*} [DecidableEq ι] {home : Address → ι} {s s' : Sys ι} {a : Action ι}

/-- The invariant about watches. -/
structure WatchInv (home : Address → ι) (s : Sys ι) : Prop where
  wf : Wf home s
  ok : ∀ c, (s c).watchState.Ok
  pending : ∀ x y r, x ≠ y → WatchPending r (s.view home x y)

omit [DecidableEq ι] in
private theorem WatchInv.init : WatchInv home (init : Sys ι) where
  wf := .init
  ok c := by
    refine ⟨fun r o t => ?_, fun pre o t r post heq => ?_⟩
    · exact iff_of_false nofun (Finset.notMem_empty _)
    · have hnil : [] = pre ++ .watched o t r :: post := heq
      exact absurd hnil (by simp)
  pending x y r hxy hrun := nomatch hrun

/-- A step that only moves messages leaves what the containers know about watches. -/
private theorem WatchInv.ok_step (h : WatchInv home s) (hs : s.step home a = some s') (d : ι) :
    (s' d).watchState.Ok := by
  rcases container_of_step hs d with ⟨t, -, hk⟩ | ⟨q, o, hk, -⟩
  · exact (h.ok d).step (Container.watchStep_of_act (h.wf d) hk)
  · rw [hk]
    exact h.ok d

private theorem WatchInv.of_reachable (h : Reachable home s) : WatchInv home s :=
  h.invariant .init fun hinv _ hs =>
    ⟨hinv.wf.step hs, hinv.ok_step hs,
      fun x y r hxy => (hinv.pending x y r hxy).step hinv.wf hxy hs⟩

omit [DecidableEq ι] in
/-- When all messages are processed, a watch that stands has a target that is there. -/
private theorem WatchInv.target_ne_none (h : WatchInv home s) (hq : s.Quiescent) {c : ι}
    {owner target : Address} {r : WatchRef} (hrun : (s c).phase = .running)
    (hmem : (target, r) ∈ (s c).watching owner) :
    (s (home target)).jobEntries target ≠ none := by
  unfold Container.watching at hmem
  split at hmem
  case h_1 => exact absurd hmem (Finset.notMem_empty _)
  case h_2 e he =>
    obtain rfl : home owner = c := (h.wf c).entryHome owner (by simp [he])
    by_cases hot : owner = target
    · rw [← hot, he]
      simp
    · intro hnone
      have hflight : ∀ x y, flight home s x y = [] := fun x y => by
        rw [flight, (hq _).1, (hq _).2]
        rfl
      have hpending := h.pending owner target r hot hrun (e.rel target)
        (by simp [view, half, he]) (JobEntry.mem_rel_watches.mpr hmem)
      simp [view, half, hflight, hnone, Half.holds] at hpending

end Sys

open Sys in
/-- **A watch is reported once.** `post` is what the container of the owner did since it gave out
the reference `r` to `owner`, until now or until it gives it out again. It reports `r` at most
once, to the owner and about the target, and not after it has handled `Unwatch(r)`. Once the
target has ended and all system messages are processed, it was reported, unless it was
unwatched or the owner has ended. -/
theorem watch_reported_once {ι : Type*} [DecidableEq ι] {home : Address → ι} {s : Sys ι}
    (h : Reachable home s) {c : ι} {pre post : List Event} {owner target : Address} {r : WatchRef}
    (hlog : (s c).log = pre ++ .watched owner target r :: post)
    (hlast : ∀ o t, .watched o t r ∉ post) :
    post.countP (Event.reports r) ≤ 1 ∧
    (∀ f peer b, .down f peer r b ∈ post → f = owner ∧ peer = target) ∧
    (∀ p₁ p₂, post = p₁ ++ .unwatched r :: p₂ → p₂.countP (Event.reports r) = 0) ∧
    (s.Quiescent → (s (home target)).jobEntries target = none →
      post.countP (Event.reports r) = 1 ∨ .unwatched r ∈ post ∨ .ended owner ∈ post ∨
        (s c).phase ≠ .running) := by
  have hinv := WatchInv.of_reachable h
  have hfate : Fate ((s c).takenWatchRefs r) owner target r post :=
    (hinv.ok c).issued pre owner target r post hlog hlast
  refine ⟨?_, hfate.lane, ?_, ?_⟩
  · rcases hfate.fate with ⟨-, hcount, -⟩ | ⟨-, hcount | ⟨hcount, -⟩⟩
    · exact hcount.trans_le (Nat.zero_le 1)
    · exact hcount.le
    · exact hcount.trans_le (Nat.zero_le 1)
  · rintro p₁ p₂ rfl
    obtain ⟨-, hquiet, -⟩ := pairwise_append.mp hfate.quiet
    refine countP_eq_zero.mpr fun e he => ?_
    rw [(pairwise_cons.mp hquiet).1 e he rfl]
    exact Bool.false_ne_true
  · intro hq hnone
    rcases hfate.fate with ⟨htaken, -⟩ | ⟨-, hcount | ⟨-, hgiven⟩⟩
    · refine .inr (.inr (.inr fun hrun => ?_))
      exact hinv.target_ne_none hq hrun (((hinv.ok c).taken r owner target).mp htaken) hnone
    · exact .inl hcount
    · exact .inr (hgiven.imp_right .inl)

/-- A fork watches the main fork of another container, which then ends: the `Down` of its
epilogue is reported. -/
theorem watch_reported_once_epilogue :
    ∃ s : Sys Bool, s.Reachable Sys.splitHome ∧ s.Quiescent ∧
      (s (Sys.splitHome ⟨17#64⟩)).jobEntries ⟨17#64⟩ = none ∧ (s false).phase = .running ∧
      ∃ post, (s false).log = .watched ⟨1#64⟩ ⟨17#64⟩ 0#64 :: post ∧
        post.countP (Event.reports 0#64) ≤ 1 ∧
        (post.countP (Event.reports 0#64) = 1 ∨ .unwatched 0#64 ∈ post ∨ .ended ⟨1#64⟩ ∈ post ∨
          (s false).phase ≠ .running) := by
  obtain ⟨s, hreach, hq, hended, hphase, hlog⟩ :
      ∃ s : Sys Bool, s.Reachable Sys.splitHome ∧ s.Quiescent ∧
        (s (Sys.splitHome ⟨17#64⟩)).jobEntries ⟨17#64⟩ = none ∧ (s false).phase = .running ∧
        (s false).log = [] ++ .watched ⟨1#64⟩ ⟨17#64⟩ 0#64 ::
          [.down ⟨1#64⟩ ⟨17#64⟩ 0#64 true] := by
    refine ⟨_, reaches_get
    [.task false (.create ⟨1#64⟩ ∅ []), .task true (.create ⟨17#64⟩ ∅ []),
      .task false (.call (.watch ⟨1#64⟩ ⟨17#64⟩)), .flush false false, .task true (.recv {}),
      .task true (.call (.exit true)), .task true .unregister, .task true .close,
      .task true (.epilogue { watchers := [⟨1#64⟩] }), .flush true false,
      .task false (.recv { refs := [0#64] })] (by decide), ?_⟩
    decide
  have honce := watch_reported_once hreach hlog (by simp)
  exact ⟨s, hreach, hq, hended, hphase, _, hlog, honce.1, honce.2.2.2 hq hended⟩

end Mm1
