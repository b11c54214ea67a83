import Mm1.Runtime.Handlers

/-!
# What a container's task can do

Each action of a container's task either leaves the job entries and the messages between forks
alone (`Idle`), or is about one fork (`Focus`): it takes at most one message for this fork out of
the queue, changes its entry and sends messages in its name. `ForkStep` lists the possible
changes of that fork. `act_spec` says that there is nothing else; what follows is derived from
it and does not open the handlers again.
-/

namespace Mm1

open Option List Function SysMsg

/-- The next phase of a container. -/
def Phase.Next : Phase → Phase → Prop
  | .absent, .running => True
  | .running, .stopping _ => True
  | .stopping b, .unregistered b' => b = b'
  | .unregistered b, .draining b' => b = b'
  | .draining b, .finished b' => b = b'
  | _, _ => False

variable {p : Phase} {b : Bool} {call : SysCall} {x y : Address} {e : JobEntry} {ev : Event}

theorem Phase.eq_absent_of_next (h : p.Next .running) : p = .absent := by
  cases p with
  | absent => rfl
  | _ => exact h.elim

theorem Phase.not_next_absent : ¬ p.Next .absent := by
  cases p <;> exact id

/-- Whether `run` ends well, once the main loop is left. -/
def Phase.result : Phase → Option Bool
  | .absent | .running => none
  | .stopping isOk | .unregistered isOk | .draining isOk | .finished isOk => some isOk

theorem Phase.Next.result {p q : Phase} (h : p.Next q) (hp : p.result = some b) :
    q.result = some b := by
  cases p with
  | absent | running => contradiction
  | stopping | unregistered | draining =>
    cases q <;> first | exact h.elim | exact (congrArg some h.symm).trans hp
  | finished => exact h.elim

/-- The container is not in the registry any more. -/
def Phase.unlisted : Phase → Bool
  | .absent | .running | .stopping _ => false
  | .unregistered _ | .draining _ | .finished _ => true

theorem Phase.Next.unlisted {p q : Phase} (h : p.Next q) (hp : p.unlisted = true) :
    q.unlisted = true := by
  cases p with
  | absent | running | stopping => contradiction
  | unregistered | draining => cases q <;> first | exact h.elim | rfl
  | finished => exact h.elim

/-- The fork an event is about. -/
def Event.fork : Event → Option Address
  | .linked f _ | .connected f _ | .handledExit f _ _ | .exited f _ _ => some f
  | .watched f _ _ | .down f _ _ _ | .ended f => some f
  | .unwatched _ => none

/-- The events of a message are those of its fork. -/
private theorem JobEntry.fork_of_mem_recvEvents {trapExit : Bool} {o : Order} {m : SysMsg}
    (hm : m.route = some (x, y)) (h : ev ∈ e.recvEvents trapExit o m) : ev.fork = some y := by
  unfold recvEvents at h
  split at h
  case h_1 =>
    cases hm
    rw [mem_singleton.mp h, Event.fork]
  case h_2 =>
    cases hm
    rcases mem_cons.mp h with rfl | h
    · rfl
    · split at h
      case isTrue => rw [mem_singleton.mp h, Event.fork]
      case isFalse => exact absurd h not_mem_nil
  case h_3 =>
    cases hm
    obtain ⟨r, -, rfl⟩ := mem_map.mp h
    rfl
  case h_4 => exact absurd h not_mem_nil

namespace Container

variable {ι : Type*} {home : Address → ι} {c : ι} {k k' : Container}

/-- The messages in the queue that are from one fork to another. -/
def routed (k : Container) : List SysMsg := k.rxSystem.filter fun m => m.route.isSome

/-- The forks whose end is in the log. -/
def endedForks (k : Container) (f : Address) : Bool := decide (.ended f ∈ k.log)

/-- What may be noted while nothing about a fork changes: a link that is there already, and an
`unwatch` of a reference that is not taken. -/
inductive IdleLog (k : Container) : List Event → Prop
  | none : IdleLog k k.log
  | linked {x y : Address} {e : JobEntry} (he : k.jobEntries x = some e) (hy : y ∈ e.linkedTo) :
      IdleLog k (k.log ++ [.linked x y])
  | unwatched {r : WatchRef} (hr : k.takenWatchRefs r = Option.none) :
      IdleLog k (k.log ++ [.unwatched r])

/-- Nothing about a fork changes. -/
structure Idle (k k' : Container) : Prop where
  entries : k'.jobEntries = k.jobEntries
  log : IdleLog k k'.log
  outbox : k'.outbox = k.outbox
  queue : k'.routed = k.routed
  phase : k'.phase = k.phase ∨
    k.phase.Next k'.phase ∧ (k.phase = .running → k.outbox = [])

/-- Only the fork `f` is concerned: it takes `inp` out of the queue, its entry becomes `e'`,
`out` is sent in its name and `events` are noted. -/
structure Focus (f : Address) (k k' : Container) (inp : List SysMsg) (e' : Option JobEntry)
    (out : List SysMsg) (events : List Event) : Prop where
  entries : k'.jobEntries = update k.jobEntries f e'
  log : k'.log = k.log ++ events
  ready : k.outbox = []
  outbox : k'.outbox = out
  outRoute : ∀ m ∈ out, ∃ z, m.route = some (f, z)
  queue : k.routed = inp ++ k'.routed
  inpRoute : ∀ m ∈ inp, ∃ z, m.route = some (z, f)

/-- What can happen to a fork `f` of container `k` under the action `a`: the messages it takes,
its new entry, the messages sent in its name, what is noted and the new phase of the
container. -/
inductive ForkStep (k : Container) (a : TaskAction) (f : Address) :
    List SysMsg → Option JobEntry → List SysMsg → List Event → Phase → Prop
  | create {linkTo : Finset Address} {order : List Address} {p : Phase}
      (ha : a = .create f linkTo order) (hp : k.phase = .absent) (ho : Walks order linkTo)
      (hp' : p = .running) :
      ForkStep k a f [] (some { linkedTo := linkTo })
        (order.map fun peer => .link (.connect f peer)) (order.map fun peer => .linked f peer) p
  | forkAdded {p : Phase} (ha : a = .call (.forkAdded f)) (hp : k.phase = .running)
      (he : k.jobEntries f = none) (hp' : p = .running) : ForkStep k a f [] (some {}) [] [] p
  | link {z : Address} {e : JobEntry} {p : Phase} (ha : a = .call (.link f z))
      (hp : k.phase = .running) (he : k.jobEntries f = some e) (hz : z ∉ e.linkedTo)
      (hp' : p = .running) :
      ForkStep k a f [] (some { e with linkedTo := insert z e.linkedTo })
        [.link (.connect f z)] [.linked f z] p
  | unlink {z : Address} {e : JobEntry} {p : Phase} (ha : a = .call (.unlink f z))
      (hp : k.phase = .running) (he : k.jobEntries f = some e) (hz : z ∈ e.linkedTo)
      (hp' : p = .running) :
      ForkStep k a f [] (some { e with linkedTo := e.linkedTo.erase z })
        [.link (.disconnect f z)] [] p
  | watch {z : Address} {r : WatchRef} {e : JobEntry} {p : Phase} (hp : k.phase = .running)
      (he : k.jobEntries f = some e) (hr : k.takenWatchRefs r = none) (hp' : p = .running) :
      ForkStep k a f [] (some { e with watches := insert (z, r) e.watches })
        [.watch (.watch f z r)] [.watched f z r] p
  | unwatch {z : Address} {r : WatchRef} {e : JobEntry} {p : Phase} (hp : k.phase = .running)
      (he : k.jobEntries f = some e) (hr : k.takenWatchRefs r = some ⟨f, z⟩)
      (hp' : p = .running) :
      ForkStep k a f [] (some { e with watches := e.watches.erase (z, r) })
        [.watch (.unwatch f z r)] [.unwatched r] p
  | recv {m : SysMsg} {e : JobEntry} {o : Order} {p : Phase} (ha : a = .recv o)
      (hq : k.rxSystem.head? = some m) (hp : k.phase = .running)
      (he : k.jobEntries f = some e) (hp' : p = .running ∨ p = .stopping false) :
      ForkStep k a f [m] (some (e.recv m)) [] (e.recvEvents k.trapExit o m) p
  | refuse {m : SysMsg} {p : Phase} (hp : k.phase = .running) (he : k.jobEntries f = none)
      (hp' : p = .running) : ForkStep k a f [m] none (m.answer .linkDown).toList [] p
  | drain {m : SysMsg} {b : Bool} {p : Phase} (hp : k.phase = .draining b)
      (hp' : p = .draining b) :
      ForkStep k a f [m] (k.jobEntries f) (m.answer (.ofNormal b)).toList [] p
  | done {e : JobEntry} {o : Order} {p : Phase} (ha : a = .recv o) (hp : k.phase = .running)
      (he : k.jobEntries f = some e) (hq : k.rxSystem.head? = some (.forkDone f))
      (ho : o.Farewell e) (hp' : p = .running) :
      ForkStep k a f [] none (JobEntry.farewell f true o) [.ended f] p
  | tornDown {e : JobEntry} {o : Order} {b : Bool} {p : Phase} (hp : k.phase = .draining b)
      (he : k.jobEntries f = some e) (hp' : p = .draining b ∨ p = .finished b)
      (ho : o.Farewell e) : ForkStep k a f [] none (JobEntry.farewell f b o) [.ended f] p

/-- The invariant of a container that the routing of messages rests on. -/
structure Wf (home : Address → ι) (c : ι) (k : Container) : Prop where
  /-- the job entries are of forks of this container -/
  entryHome : ∀ f, k.jobEntries f ≠ none → home f = c
  /-- the messages in the queue are for forks of this container -/
  queueHome : ∀ m ∈ k.rxSystem, ∀ x y, m.route = some (x, y) → home y = c
  /-- the messages to send are from forks of this container -/
  outboxHome : ∀ m ∈ k.outbox, ∃ x y, m.route = some (x, y) ∧ home x = c
  /-- only a running container sends requests -/
  request : ∀ m ∈ k.outbox, m.IsRequest → k.phase = .running
  absent : k.phase = .absent → k = .absent

theorem Wf.init : Wf home c Container.absent where
  entryHome _ h := absurd rfl h
  queueHome _ h := absurd h not_mem_nil
  outboxHome _ h := absurd h not_mem_nil
  request _ h := absurd h not_mem_nil
  absent _ := rfl

/-! ### The handlers -/

/-- The last messages of a fork. -/
private theorem route_of_mem_farewell {f : Address} {o : Order} {m : SysMsg}
    (h : m ∈ JobEntry.farewell f b o) : (∃ z, m.route = some (f, z)) ∧ ¬ m.IsRequest := by
  simp only [JobEntry.farewell, List.mem_append, List.mem_map] at h
  rcases h with (⟨p, -, rfl⟩ | ⟨p, -, rfl⟩) | ⟨p, -, rfl⟩
  · exact ⟨⟨_, rfl⟩, id⟩
  · exact ⟨⟨_, rfl⟩, id⟩
  · exact ⟨⟨_, rfl⟩, id⟩

/-- Everything an action of a container's task can do. -/
def Does (home : Address → ι) (c : ι) (a : TaskAction) (k k' : Container) : Prop :=
  Idle k k' ∨ ∃ f inp e' out events,
    home f = c ∧ Focus f k k' inp e' out events ∧ ForkStep k a f inp e' out events k'.phase

variable {a : TaskAction} {f z : Address} {m : SysMsg} {rest : List SysMsg} {o : Order}
  {inp out : List SysMsg} {e' : Option JobEntry} {events : List Event}

/-- The forks that end. -/
private theorem ForkStep.ended (h : ForkStep k a f inp e' out events p) :
    .ended z ∈ events ↔ z = f ∧ ((k.jobEntries f).isSome && e'.isNone) = true := by
  cases h with
  | create | forkAdded | link | unlink | watch | unwatch => simp
  | @recv m e =>
    cases m with
    | link l => cases l <;> simp [JobEntry.recvEvents]
    | watch w => cases w <;> simp [JobEntry.recvEvents]
    | _ => simp [JobEntry.recvEvents]
  | refuse _ he => simp [he]
  | drain => cases k.jobEntries f <;> simp
  | done _ _ he | tornDown _ he => simp [he]

/-- What is noted is about the fork. -/
theorem ForkStep.fork_of_mem (h : ForkStep k a f inp e' out events p)
    (hinp : ∀ m ∈ inp, ∃ z, m.route = some (z, f)) (hev : ev ∈ events) :
    ev.fork = some f ∨ ev.fork = none := by
  cases h with
  | create =>
    obtain ⟨z, -, rfl⟩ := mem_map.mp hev
    exact .inl rfl
  | forkAdded | unlink | refuse | drain => exact absurd hev not_mem_nil
  | link | watch | done | tornDown =>
    rw [mem_singleton.mp hev]
    exact .inl rfl
  | unwatch =>
    rw [mem_singleton.mp hev]
    exact .inr rfl
  | recv =>
    obtain ⟨z, hz⟩ := hinp _ (mem_singleton_self _)
    exact .inl (JobEntry.fork_of_mem_recvEvents hz hev)

/-- Which forks have ended. -/
theorem Focus.ended (h : Focus f k k' inp e' out events)
    (hstep : ForkStep k a f inp e' out events p) :
    k'.endedForks = update k.endedForks f
      (k.endedForks f || (k.jobEntries f).isSome && e'.isNone) := by
  funext z
  by_cases hz : z = f
  · subst hz
    cases e' <;> simp [endedForks, h.log, hstep.ended]
  · simp [endedForks, h.log, hstep.ended, hz]

theorem Idle.ended (h : Idle k k') : k'.endedForks = k.endedForks := by
  funext z
  rw [endedForks, endedForks]
  generalize hlog : k'.log = log
  cases hlog ▸ h.log <;> simp

private theorem routed_cons (hq : k.rxSystem = m :: rest) (hm : m.route = some (z, f))
    (hq' : k'.rxSystem = rest) : k.routed = [m] ++ k'.routed := by
  simp [routed, hq, hq', hm]

/-- A fork with an entry handles a message. -/
private theorem does_recv (ha : a = .recv o) (hp : k.phase = .running) (hout : k.outbox = [])
    (hq : k.rxSystem = m :: rest) (hm : m.route = some (z, f)) (hf : home f = c)
    (he : k.jobEntries f = some e) (he' : k'.jobEntries = update k.jobEntries f (some (e.recv m)))
    (hlog : k'.log = k.log ++ e.recvEvents k.trapExit o m) (hout' : k'.outbox = [])
    (hq' : k'.rxSystem = rest) (hp' : k'.phase = .running ∨ k'.phase = .stopping false) :
    Does home c a k k' := by
  refine .inr ⟨f, [m], some (e.recv m), [], _, hf, ?_,
    .recv ha (by rw [hq, List.head?_cons]) hp he hp'⟩
  refine ⟨he', hlog, hout, hout', fun _ h => absurd h not_mem_nil, routed_cons hq hm hq', ?_⟩
  intro m' hm'
  rw [mem_singleton.mp hm']
  exact ⟨z, hm⟩

/-- An answer goes out from the fork. -/
private theorem outRoute_answer {reason : ExitReason} (hm : m.route = some (z, f)) :
    ∀ m' ∈ (m.answer reason).toList, ∃ z, m'.route = some (f, z) := by
  intro m' hm'
  obtain ⟨x, y, hxy, hyx⟩ := route_of_answer (mem_toList.mp hm')
  obtain ⟨rfl, rfl⟩ : x = z ∧ y = f := by
    rw [hm] at hxy
    exact ⟨(congrArg Prod.fst (some.inj hxy)).symm, (congrArg Prod.snd (some.inj hxy)).symm⟩
  exact ⟨_, hyx⟩

/-- A message for a fork without an entry. -/
private theorem does_refuse (hp : k.phase = .running) (hout : k.outbox = [])
    (hq : k.rxSystem = m :: rest) (hm : m.route = some (z, f)) (hf : home f = c)
    (he : k.jobEntries f = none) (he' : k'.jobEntries = k.jobEntries)
    (hlog : k'.log = k.log) (hout' : k'.outbox = (m.answer .linkDown).toList)
    (hq' : k'.rxSystem = rest)
    (hp' : k'.phase = .running) : Does home c a k k' := by
  refine .inr ⟨f, [m], none, _, [], hf, ?_, .refuse hp he hp'⟩
  refine ⟨?_, hlog.trans (append_nil _).symm, hout, hout', outRoute_answer hm,
    routed_cons hq hm hq', ?_⟩
  · rw [he', ← he, update_eq_self]
  · intro m' hm'
    rw [mem_singleton.mp hm']
    exact ⟨z, hm⟩

/-- A message that is emptied out of the closed queue. -/
private theorem does_drain (hp : k.phase = .draining b) (hout : k.outbox = [])
    (hq : k.rxSystem = m :: rest) (hm : m.route = some (z, f)) (hf : home f = c)
    (he' : k'.jobEntries = k.jobEntries) (hlog : k'.log = k.log)
    (hout' : k'.outbox = (m.answer (.ofNormal b)).toList) (hq' : k'.rxSystem = rest)
    (hp' : k'.phase = .draining b) : Does home c a k k' := by
  refine .inr ⟨f, [m], k.jobEntries f, _, [], hf, ?_, .drain hp hp'⟩
  refine ⟨?_, hlog.trans (append_nil _).symm, hout, hout', outRoute_answer hm,
    routed_cons hq hm hq', ?_⟩
  · rw [he', update_eq_self]
  · intro m' hm'
    rw [mem_singleton.mp hm']
    exact ⟨z, hm⟩

variable [DecidableEq ι]

/-- A call of the actor. -/
private theorem does_call (hw : Wf home c k) (ha : a = .call call) (hp : k.phase = .running)
    (hout : k.outbox = []) (hc : callOk home c call = true) (h : CallMoves k call k') :
    Does home c a k k' := by
  cases h with
  | exit => exact .inl ⟨rfl, .none, rfl, rfl, .inr ⟨by rw [hp]; trivial, fun _ => hout⟩⟩
  | trapExit | spawn | unlinked => exact .inl ⟨rfl, .none, rfl, rfl, .inl rfl⟩
  | linked he hy => exact .inl ⟨rfl, .linked he hy, rfl, rfl, .inl rfl⟩
  | unwatched hr => exact .inl ⟨rfl, .unwatched hr, rfl, rfl, .inl rfl⟩
  | @forkAdded f he =>
    refine .inr ⟨f, [], some {}, [], [], of_decide_eq_true hc, ?_, .forkAdded ha hp he hp⟩
    exact ⟨rfl, (append_nil _).symm, hout, hout, fun _ h => absurd h not_mem_nil, rfl,
      fun _ h => absurd h not_mem_nil⟩
  | @link x y e he hy =>
    refine .inr ⟨x, [], _, _, _, hw.entryHome x (by simp [he]), ?_, .link ha hp he hy hp⟩
    exact ⟨rfl, rfl, hout, congrArg (· ++ _) hout, by simp [route], rfl,
      fun _ h => absurd h not_mem_nil⟩
  | @unlink x y e he hy =>
    refine .inr ⟨x, [], _, _, _, hw.entryHome x (by simp [he]), ?_, .unlink ha hp he hy hp⟩
    exact ⟨rfl, (append_nil _).symm, hout, congrArg (· ++ _) hout, by simp [route],
      rfl, fun _ h => absurd h not_mem_nil⟩
  | @watch x y e r next he hr =>
    refine .inr ⟨x, [], _, _, _, hw.entryHome x (by simp [he]), ?_,
      .watch (z := y) hp he hr hp⟩
    exact ⟨rfl, rfl, hout, congrArg (· ++ _) hout, by simp [route], rfl,
      fun _ h => absurd h not_mem_nil⟩
  | @unwatch x owner target e r hr he =>
    refine .inr ⟨owner, [], _, _, _, hw.entryHome owner (by simp [he]), ?_,
      .unwatch hp he hr hp⟩
    exact ⟨rfl, rfl, hout, congrArg (· ++ _) hout, by simp [route], rfl,
      fun _ h => absurd h not_mem_nil⟩

omit [DecidableEq ι] in
/-- A message that is handled while the actor runs. -/
private theorem does_msg (hw : Wf home c k) (ha : a = .recv o) (hp : k.phase = .running)
    (hout : k.outbox = []) (hq : k.rxSystem = m :: rest)
    (h : MsgMoves { k with rxSystem := rest } o m k') : Does home c a k k' := by
  have hhome : ∀ x y, m.route = some (x, y) → home y = c := hw.queueHome m (hq ▸ mem_cons_self)
  cases h with
  | kill =>
    refine .inl ⟨rfl, .none, rfl, ?_, .inr ⟨by rw [hp]; trivial, fun _ => hout⟩⟩
    simp [routed, setPhase, hq, route]
  | @forkDone f k' hf =>
    obtain ⟨e, he, ho, rfl⟩ := removeFork_spec hf
    have he : k.jobEntries f = some e := he
    refine .inr ⟨f, [], none, _, _, hw.entryHome f (by simp [he]), ?_,
      .done ha hp he (by rw [hq, List.head?_cons]) ho hp⟩
    refine ⟨rfl, rfl, hout, congrArg (· ++ _) hout, fun m hm => (route_of_mem_farewell hm).1, ?_,
      fun _ h => absurd h not_mem_nil⟩
    simp [routed, note, send, untake, setEntry, hq, route]
  | refuse hm he =>
    exact does_refuse hp hout hq hm (hhome _ _ hm) he rfl rfl (congrArg (· ++ _) hout) rfl hp
  | recv hm he hk =>
    exact does_recv ha hp hout hq hm (hhome _ _ hm) he hk.entries hk.log (hk.outbox.trans hout)
      hk.rxSystem (hk.phase.imp_left fun h => h.trans hp)

omit [DecidableEq ι] in
/-- A message that is handled while the actor drains. -/
private theorem does_drainMsg (hw : Wf home c k) (hp : k.phase = .draining b) (hout : k.outbox = [])
    (hq : k.rxSystem = m :: rest) (h : { k with rxSystem := rest }.drainMsg b o m = some k') :
    Does home c a k k' := by
  rcases drainMsg_cases h with ⟨f, rfl, hf⟩ | rfl
  · obtain ⟨e, he, ho, rfl⟩ := removeFork_spec hf
    have he : k.jobEntries f = some e := he
    refine .inr ⟨f, [], none, _, _, hw.entryHome f (by simp [he]), ?_,
      .tornDown hp he (.inl hp) ho⟩
    refine ⟨rfl, rfl, hout, congrArg (· ++ _) hout, fun m hm => (route_of_mem_farewell hm).1, ?_,
      fun _ h => absurd h not_mem_nil⟩
    simp [routed, note, send, untake, setEntry, hq, route]
  · cases hm : m.route with
    | some xy =>
      have hhome := hw.queueHome m (hq ▸ mem_cons_self) xy.1 xy.2 hm
      exact does_drain hp hout hq hm hhome rfl rfl (congrArg (· ++ _) hout) rfl hp
    | none =>
      have hans : m.answer (.ofNormal b) = none := by
        by_contra hne
        obtain ⟨m', hm'⟩ := ne_none_iff_exists'.mp hne
        obtain ⟨x, y, hroute, -⟩ := route_of_answer hm'
        rw [hm] at hroute
        contradiction
      refine .inl ⟨rfl, .none, ?_, by simp [routed, send, hq, hm], .inl rfl⟩
      simp [send, hans]

/-- **The task of a container**: an action leaves the forks alone or is about one of them. -/
theorem act_spec (hw : Wf home c k) (h : k.act home c a = some k') : Does home c a k k' := by
  cases taskMoves_of_act h with
  | @create f linkTo order hp hf ho =>
    obtain rfl := hw.absent hp
    refine .inr ⟨f, [], _, _, _, hf, ?_, .create rfl hp ho rfl⟩
    exact ⟨rfl, rfl, rfl, rfl, by simp [route], rfl,
      fun _ h => absurd h not_mem_nil⟩
  | call hp hout hc hcall => exact does_call hw rfl hp hout hc hcall
  | recv hp hout hq hmsg => exact does_msg hw rfl hp hout hq hmsg
  | dropFork | dropUnapplied =>
    exact .inl ⟨rfl, .none, rfl, by simp [routed, enqueue, route], .inl rfl⟩
  | unregister hp hout =>
    exact .inl ⟨rfl, .none, rfl, rfl, .inr ⟨by rw [hp]; exact rfl, fun _ => hout⟩⟩
  | close hp =>
    refine .inl ⟨rfl, .none, rfl, rfl, .inr ⟨by rw [hp]; exact rfl, fun hr => ?_⟩⟩
    rw [hp] at hr
    contradiction
  | drain hp hout hq hmsg => exact does_drainMsg hw hp hout hq hmsg
  | epilogue hp hout hq hf =>
    obtain ⟨e, he, ho, rfl⟩ := removeFork_spec hf
    refine .inr ⟨k.mainFork, [], none, _, _, hw.entryHome _ (by simp [he]), ?_,
      .tornDown hp he (.inr rfl) ho⟩
    exact ⟨rfl, rfl, hout, congrArg (· ++ _) hout, fun m hm => (route_of_mem_farewell hm).1, rfl,
      fun _ h => absurd h not_mem_nil⟩

/-- Which forks have an entry: a fork comes when it is added, and goes with its `ForkDone` or
after the main loop. -/
theorem entry_of_act (hw : Wf home c k) (h : k.act home c a = some k') (f : Address) :
    (k'.jobEntries f ≠ none ↔ k.jobEntries f ≠ none) ∨
    k'.jobEntries f ≠ none ∧ (a = .call (.forkAdded f) ∨ ∃ l o, a = .create f l o) ∨
    k'.jobEntries f = none ∧ ((∃ o, a = .recv o) ∧ k.phase = .running ∧
      k.rxSystem.head? = some (.forkDone f) ∨ ∃ b, k.phase = .draining b) := by
  rcases act_spec hw h with hi | ⟨g, inp, e', out, events, -, hfocus, hstep⟩
  · exact .inl (by rw [hi.entries])
  rw [hfocus.entries]
  by_cases hf : f = g
  · subst hf
    rw [update_self]
    cases hstep with
    | create ha => exact .inr (.inl ⟨some_ne_none _, .inr ⟨_, _, ha⟩⟩)
    | forkAdded ha => exact .inr (.inl ⟨some_ne_none _, .inl ha⟩)
    | link _ _ he | unlink _ _ he | watch _ he | unwatch _ he | recv _ _ _ he =>
      rw [he]
      exact .inl (iff_of_true (some_ne_none _) (some_ne_none _))
    | refuse _ he =>
      rw [he]
      exact .inl Iff.rfl
    | drain => exact .inl Iff.rfl
    | tornDown hp => exact .inr (.inr ⟨rfl, .inr ⟨_, hp⟩⟩)
    | done ha hp _ hq => exact .inr (.inr ⟨rfl, .inl ⟨⟨_, ha⟩, hp, hq⟩⟩)
  · rw [update_of_ne hf]
    exact .inl Iff.rfl

/-! ### The queue and the contexts -/

omit [DecidableEq ι] in
/-- A call does not touch the queue. -/
theorem CallMoves.keeps (h : CallMoves k call k') :
    k'.rxSystem = k.rxSystem ∧
      ∀ f, f ∈ k'.contexts ↔ f ∈ k.contexts ∨ call = .forkAdded f := by
  cases h with
  | forkAdded => exact ⟨rfl, fun f => by simp [eq_comm, or_comm]⟩
  | _ => exact ⟨rfl, by simp [setPhase, note, send, setEntry, untake]⟩

omit [DecidableEq ι] in
/-- A message does not touch the queue. -/
theorem MsgMoves.keeps (h : MsgMoves k o m k') :
    k'.rxSystem = k.rxSystem ∧ k'.contexts = k.contexts := by
  cases h with
  | kill | refuse => exact ⟨rfl, rfl⟩
  | forkDone hf =>
    obtain ⟨e, -, -, rfl⟩ := removeFork_spec hf
    exact ⟨rfl, rfl⟩
  | recv _ _ h => exact ⟨h.rxSystem, h.contexts⟩

omit [DecidableEq ι] in
private theorem drainMsg_keeps (h : k.drainMsg b o m = some k') :
    k'.rxSystem = k.rxSystem ∧ k'.contexts = k.contexts := by
  rcases drainMsg_cases h with ⟨f, -, hf⟩ | rfl
  · obtain ⟨e, -, -, rfl⟩ := removeFork_spec hf
    exact ⟨rfl, rfl⟩
  · exact ⟨rfl, rfl⟩

/-- What an action does to the queue and to the contexts: a message is taken, or nothing but a
`ForkDone` of the context that is dropped is queued. -/
structure Flow (k : Container) (a : TaskAction) (k' : Container) : Prop where
  contexts : ∀ f, f ∈ k'.contexts ↔ f ∈ k.contexts ∧ a ≠ .dropFork f ∨ a = .call (.forkAdded f)
  queue : (∃ o m, (a = .recv o ∨ a = .drain o) ∧ k.rxSystem = m :: k'.rxSystem) ∨
    ∃ q, k'.rxSystem = k.rxSystem ++ q ∧
      ∀ f, .forkDone f ∈ q → a = .dropFork f ∨ a = .dropUnapplied f

omit [DecidableEq ι] in
private theorem Flow.of_eq (hc : k'.contexts = k.contexts) (hq : k'.rxSystem = k.rxSystem)
    (hdrop : ∀ f, a ≠ .dropFork f) (hadd : ∀ f, a ≠ .call (.forkAdded f)) : Flow k a k' :=
  ⟨fun f => by simp [hc, hdrop, hadd],
    .inr ⟨[], by rw [hq, append_nil], fun _ h => absurd h not_mem_nil⟩⟩

/-- Every action is a `Flow`. -/
theorem flow_of_act (hw : Wf home c k) (h : k.act home c a = some k') : Flow k a k' := by
  cases taskMoves_of_act h with
  | create hp =>
    obtain rfl := hw.absent hp
    exact .of_eq rfl rfl (by simp) (by simp)
  | call _ _ _ hcall =>
    obtain ⟨hq, hc⟩ := hcall.keeps
    exact ⟨fun f => by simp [hc],
      .inr ⟨[], by rw [hq, append_nil], fun _ h => absurd h not_mem_nil⟩⟩
  | @recv o m rest _ _ _ hq hmsg =>
    obtain ⟨hq', hc⟩ := hmsg.keeps
    exact ⟨fun f => by simp [hc], .inl ⟨o, m, .inl rfl, by rw [hq, hq']⟩⟩
  | @dropFork f =>
    refine ⟨fun f' => ?_, .inr ⟨[.forkDone f], rfl, fun f' hf' => ?_⟩⟩
    · simp [Container.enqueue, and_comm, eq_comm]
    · cases mem_singleton.mp hf'
      exact .inl rfl
  | @dropUnapplied f =>
    refine ⟨fun f' => by simp [Container.enqueue], .inr ⟨[.forkDone f], rfl, fun f' hf' => ?_⟩⟩
    cases mem_singleton.mp hf'
    exact .inr rfl
  | unregister | close => exact .of_eq rfl rfl (by simp) (by simp)
  | @drain o b m rest _ _ _ hq hmsg =>
    obtain ⟨hq', hc⟩ := drainMsg_keeps hmsg
    exact ⟨fun f => by simp [hc], .inl ⟨o, m, .inr rfl, by rw [hq, hq']⟩⟩
  | epilogue _ _ _ hf =>
    obtain ⟨e, -, -, rfl⟩ := removeFork_spec hf
    exact .of_eq rfl rfl (by simp) (by simp)

/-- A container does not unregister before the contexts of its sub-forks are dropped. -/
theorem stopping_of_act (h : k.act home c a = some k') (hp : k.phase = .stopping b)
    (hf : f ∈ k.contexts) : k'.phase = .stopping b := by
  cases taskMoves_of_act h with
  | dropFork | dropUnapplied => exact hp
  | unregister _ _ hctx => exact absurd (hctx ▸ hf) (Finset.notMem_empty f)
  | create hp' | call hp' | recv hp' | close hp' | drain hp' | epilogue hp' =>
    rw [hp] at hp'
    contradiction

/-! ### The invariant -/

omit [DecidableEq ι] in
/-- The phase goes on or stays. -/
theorem ForkStep.phase_next (h : ForkStep k a f inp e' out events p) :
    p = k.phase ∨ k.phase.Next p := by
  cases h with
  | create _ hp _ hp' => exact .inr (by rw [hp, hp']; trivial)
  | forkAdded _ hp _ hp' | refuse hp _ hp' | link _ hp _ _ hp' | unlink _ hp _ _ hp'
  | watch hp _ _ hp' | unwatch hp _ _ hp' => exact .inl (hp'.trans hp.symm)
  | recv _ _ hp _ hp' =>
    rcases hp' with hp' | hp'
    · exact .inl (hp'.trans hp.symm)
    · exact .inr (by rw [hp, hp']; trivial)
  | drain hp hp' | done _ hp _ _ _ hp' => exact .inl (hp'.trans hp.symm)
  | tornDown hp _ hp' =>
    rcases hp' with hp' | hp'
    · exact .inl (hp'.trans hp.symm)
    · exact .inr (by rw [hp, hp']; exact rfl)

omit [DecidableEq ι] in
/-- Requests are sent by a running container only. -/
private theorem ForkStep.request (h : ForkStep k a f inp e' out events p) (hm : m ∈ out)
    (hreq : m.IsRequest) : p = .running := by
  cases h with
  | create _ _ _ hp' | forkAdded _ _ _ hp' | refuse _ _ hp' | link _ _ _ _ hp' | unlink _ _ _ _ hp'
  | watch _ _ _ hp' | unwatch _ _ _ hp' | done _ _ _ _ _ hp' => exact hp'
  | recv => exact absurd hm not_mem_nil
  | drain => exact absurd hreq (not_isRequest_of_answer (mem_toList.mp hm))
  | tornDown => exact absurd hreq (route_of_mem_farewell hm).2

/-- A container that does not exist can only be created. -/
theorem act_absent (h : Container.absent.act home c a = some k') :
    (∃ f l o, a = .create f l o) ∧ k'.phase = .running := by
  cases taskMoves_of_act h with
  | create => exact ⟨⟨_, _, _, rfl⟩, rfl⟩
  | dropFork hf => exact absurd hf (Finset.notMem_empty _)
  | call hp | recv hp | dropUnapplied hp | unregister hp | close hp | drain hp | epilogue hp =>
    contradiction

private theorem mem_routed (hm : m ∈ k.rxSystem) (h : m.route = some (x, y)) : m ∈ k.routed :=
  mem_filter.mpr ⟨hm, by rw [h]; rfl⟩

/-- The phase goes on or stays. -/
theorem phase_next_of_act (hw : Wf home c k) (h : k.act home c a = some k') :
    k'.phase = k.phase ∨ k.phase.Next k'.phase := by
  rcases act_spec hw h with hi | ⟨f, inp, e', out, events, -, -, hstep⟩
  · exact hi.phase.imp_right And.left
  · exact hstep.phase_next

/-- The task of a container keeps the invariant. -/
theorem Wf.act (hw : Wf home c k) (h : k.act home c a = some k') : Wf home c k' := by
  -- a container that exists now does not become absent, and an absent one can only be created
  have habsent : k'.phase = .absent → k' = .absent := by
    intro hp'
    have hnext := phase_next_of_act hw h
    rw [hp'] at hnext
    obtain rfl := hw.absent (hnext.resolve_right Phase.not_next_absent).symm
    exact nomatch hp'.symm.trans (act_absent h).2
  rcases act_spec hw h with hi | ⟨f, inp, e', out, events, hf, hfocus, hstep⟩
  · refine ⟨by rw [hi.entries]; exact hw.entryHome, ?_, by rw [hi.outbox]; exact hw.outboxHome,
      ?_, habsent⟩
    · intro m hm x y hroute
      have := mem_routed hm hroute
      rw [hi.queue] at this
      exact hw.queueHome m (mem_of_mem_filter this) x y hroute
    · intro m hm hreq
      rw [hi.outbox] at hm
      have hrun := hw.request m hm hreq
      rcases hi.phase with hp | ⟨-, hp⟩
      · exact hp.trans hrun
      · rw [hp hrun] at hm
        exact absurd hm not_mem_nil
  · refine ⟨?_, ?_, ?_, ?_, habsent⟩
    · intro f' hf'
      rw [hfocus.entries] at hf'
      by_cases hff : f' = f
      · rw [hff, hf]
      · rw [update_of_ne hff] at hf'
        exact hw.entryHome f' hf'
    · intro m hm x y hroute
      refine hw.queueHome m (mem_of_mem_filter (p := fun m => m.route.isSome) ?_) x y hroute
      change m ∈ k.routed
      rw [hfocus.queue]
      exact mem_append_right _ (mem_routed hm hroute)
    · intro m hm
      rw [hfocus.outbox] at hm
      obtain ⟨z, hz⟩ := hfocus.outRoute m hm
      exact ⟨f, z, hz, hf⟩
    · intro m hm hreq
      rw [hfocus.outbox] at hm
      exact hstep.request hm hreq

omit [DecidableEq ι] in
theorem Wf.enqueue (hw : Wf home c k) (hp : k.phase ≠ .absent)
    (hm : ∀ x y, m.route = some (x, y) → home y = c) : Wf home c (k.enqueue m) where
  entryHome := hw.entryHome
  queueHome m' hm' := by
    rcases mem_append.mp hm' with hm' | hm'
    · exact hw.queueHome m' hm'
    · rw [mem_singleton.mp hm']
      exact hm
  outboxHome := hw.outboxHome
  request := hw.request
  absent h := absurd h hp

omit [DecidableEq ι] in
theorem Wf.popOutbox (hw : Wf home c k) : Wf home c { k with outbox := k.outbox.tail } where
  entryHome := hw.entryHome
  queueHome := hw.queueHome
  outboxHome m hm := hw.outboxHome m (mem_of_mem_tail hm)
  request m hm := hw.request m (mem_of_mem_tail hm)
  absent h := by
    obtain rfl := hw.absent h
    rfl

private theorem phase_ne_absent_of_accepts {stale : Bool} (h : k.accepts stale = true) :
    k.phase ≠ .absent := by
  intro hp
  rw [accepts, hp] at h
  contradiction

end Container

namespace Sys

variable {ι : Type*} [DecidableEq ι] {home : Address → ι} {s s' : Sys ι} {a : Action ι} {c : ι}

/-- Every container keeps the invariant. -/
def Wf (home : Address → ι) (s : Sys ι) : Prop := ∀ c, (s c).Wf home c

omit [DecidableEq ι] in
theorem Wf.init : Wf home (init : Sys ι) := fun _ => .init

omit [DecidableEq ι] in
private theorem phase_ne_absent_of_outbox (hw : Wf home s) (h : (s c).outbox ≠ []) :
    (s c).phase ≠ .absent := by
  intro hp
  rw [(hw c).absent hp] at h
  exact h rfl

private theorem Wf.update {k : Container} (hw : Wf home s) (hk : k.Wf home c) :
    Wf home (update s c k) := by
  intro c'
  by_cases hc : c' = c
  · subst hc
    rwa [update_self]
  · rw [update_of_ne hc]
    exact hw c'

private theorem Wf.enqueue {m : SysMsg} (hw : Wf home s) (hp : (s c).phase ≠ .absent)
    (hm : ∀ x y, m.route = some (x, y) → home y = c) : Wf home (s.enqueue c m) :=
  hw.update ((hw c).enqueue hp hm)

private theorem phase_popOutbox (c d : ι) : ((s.popOutbox c) d).phase = (s d).phase := by
  unfold popOutbox
  by_cases hd : d = c
  · subst hd
    rw [update_self]
  · rw [update_of_ne hd]

/-- A step keeps the system well formed. -/
theorem Wf.step (hw : Wf home s) (h : s.step home a = some s') : Wf home s' := by
  cases moves_of_step h with
  | task hk => exact hw.update ((hw _).act hk)
  | @deliver c stale m rest x y hout hm hacc =>
    refine (hw.update (hw c).popOutbox).enqueue ?_ ?_
    · exact (phase_popOutbox c _).trans_ne (Container.phase_ne_absent_of_accepts hacc)
    · intro x' y' hroute
      rw [hm] at hroute
      cases hroute
      rfl
  | @lose c stale m rest x y hout hm hacc =>
    have hpop : Wf home (s.popOutbox c) := hw.update (hw c).popOutbox
    unfold sendFailed
    split
    case h_1 => exact hpop
    case h_2 m' hm' =>
      refine hpop.enqueue ?_ ?_
      · rw [phase_popOutbox]
        exact phase_ne_absent_of_outbox hw (by simp [hout])
      · intro x' y' hroute
        obtain ⟨x₁, y₁, h₁, h₂⟩ := route_of_answer hm'
        obtain ⟨x₂, y₂, h₃, hhome⟩ := (hw c).outboxHome m (by simp [hout])
        rw [h₁] at h₃
        rw [h₂] at hroute
        cases hroute
        cases h₃
        exact hhome
  | kill hacc =>
    exact hw.enqueue (Container.phase_ne_absent_of_accepts hacc) (fun _ _ h => nomatch h)
  | exit hacc =>
    refine hw.enqueue (Container.phase_ne_absent_of_accepts hacc) fun x' y' hroute => ?_
    cases hroute
    rfl

end Sys

end Mm1
